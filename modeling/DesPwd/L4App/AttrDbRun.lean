import DesPwd.L4App.AttrDb

/-!
# slog_monitor_server: the rows of a day

Reports and passes of one day, in any order. The invariant says of every slot of
the pair which rows were inserted for it, and what the next pass will find.

* `Inv.report`, `Inv.pass`: what one report and one pass keep.
* `slot_rows`: the rows of every slot after every run of a day.
* `slot_row_lost`: a day with a pass in every minute and no row.
-/
namespace DesPwd.L4.AttrDb

open Run L2.WarnAttr List Option UInt32

/-! ## The invariant -/

/-- The node was last stored on an earlier day or in no later slot. -/
def ToDb.Past (zone : Nat) (d : ToDb) (now : UInt32) : Prop :=
  dayOf zone d.dwLastToDbTime < dayOf zone now ∨ (d.wLastToDbIdx.toNat : Int) ≤ slotOf zone 1 now

/-- A pass in slot `j` found a last report that was not old. -/
def Tried (zone : Nat) (ran : List Ran) (j : Int) : Prop :=
  ∃ r ∈ ran, r.fresh = true ∧ slotOf zone 1 r.now = j

/-- One of them had no error. -/
def Good (zone : Nat) (ran : List Ran) (j : Int) : Prop :=
  ∃ r ∈ ran, r.fresh = true ∧ r.ok = true ∧ slotOf zone 1 r.now = j

/-- The record of the pair for the reports `h`. -/
def RecOk (zone : Nat) (ty : DataType) (h : List (Int × UInt32)) (now : UInt32) :
    Option WarnAttrReportInfo → Prop
  | none => h = []
  | some p => Today zone ty h p now ∨ Old zone h p now

structure Inv (zone : Nat) (a m : Int) (ty : DataType) (s : Sys) : Prop where
  record : RecOk zone ty s.hist s.now (s.db.shm a m)
  nodup : s.db.nodes.Nodup
  mem : ∀ a' m', (a', m') ∈ s.db.nodes ↔ (s.db.shm a' m').isSome
  future : ∀ j, slotOf zone 1 s.now < j → slotRows zone a m s.db j = [] ∧ ¬ Tried zone s.ran j
  rows : ∀ k, 0 ≤ k → slotVals s.hist k ≠ [] → slotRows zone a m s.db (k + 1) ≠ [] →
    Tried zone s.ran (k + 1) ∧ slotRows zone a m s.db (k + 1) = [aggregate ty s.hist k]
  good : ∀ k, 0 ≤ k → slotVals s.hist k ≠ [] → Good zone s.ran (k + 1) →
    aggregate ty s.hist k ≠ 0 → slotRows zone a m s.db (k + 1) ≠ []
  /-- whether the pair is stored in its slot is what a pass from now on finds -/
  mark : (s.db.shm a m).isSome → ∀ t, s.now ≤ t → dayOf zone s.now = dayOf zone t →
    t.toNat + 120 < 2 ^ 32 →
    (slotOf zone 1 s.now < slotOf zone 1 t ∨
      1 ≤ slotOf zone 1 t ∧ slotVals s.hist (slotOf zone 1 t - 1) ≠ []) →
    (isStored (s.db.toDb a m) 60 t (slotOf zone 1 t) = true ↔
      slotRows zone a m s.db (slotOf zone 1 t) ≠ [])

section Steps

variable {zone : Nat} {a m j : Int} {ty : DataType} {s : Sys} {t now : UInt32} {ran : List Ran}
  {r : Ran} {shm : Shm} {src : Src} {v : AttrVal} {db db' : Db} {h : List (Int × UInt32)}
  {p : WarnAttrReportInfo}

theorem tried_append :
    Tried zone (ran ++ [r]) j ↔ Tried zone ran j ∨ r.fresh = true ∧ slotOf zone 1 r.now = j := by
  simp [Tried]

theorem good_append : Good zone (ran ++ [r]) j ↔
      Good zone ran j ∨ r.fresh = true ∧ r.ok = true ∧ slotOf zone 1 r.now = j := by
  simp [Good]

/-- A node that was last stored in the past is not taken for stored in a later
slot. -/
theorem ToDb.Past.not_isStored {d : ToDb} (h : d.Past zone now)
    (hd : dayOf zone now = dayOf zone t) (hs : slotOf zone 1 now < slotOf zone 1 t) :
    ¬ isStored d 60 t (slotOf zone 1 t) = true := by
  unfold isStored
  rw [decide_eq_true_eq]
  intro hst
  have hnn := slotOf_one_nonneg zone now
  rcases h with hday | hidx
  · have h1 := toNat_add_zone zone d.dwLastToDbTime
    have h2 := toNat_add_zone zone t
    have hsec : secOfDay zone d.dwLastToDbTime < 86400 := Nat.mod_lt _ (by decide)
    have hle := le_iff_toNat_le.mp hst.2
    rw [UInt32.toNat_add] at hle
    have h60 : (60 : UInt32).toNat = 60 := rfl
    rw [slotOf_one zone t] at hs
    omega
  · omega

theorem Inv.later (h : Inv zone a m ty s) (hd : dayOf zone s.now = dayOf zone t)
    (hle : s.now ≤ t) : Inv zone a m ty { s with now := t } where
  record := by
    have hr := h.record
    revert hr
    cases s.db.shm a m with
    | none => exact id
    | some p => exact Or.imp (fun hp => hp.later hd hle) (fun hp => hp.later hd)
  nodup := h.nodup
  mem := h.mem
  future j hj := h.future j (Int.lt_of_le_of_lt (slotOf_one_mono hd hle) hj)
  rows := h.rows
  good := h.good
  mark hp t' hle' hd' hb hc := by
    refine h.mark hp t' (UInt32.le_trans hle hle') (hd.trans hd') hb (hc.imp_left fun hlt => ?_)
    exact Int.lt_of_le_of_lt (slotOf_one_mono hd hle) hlt

/-! ### A report -/

theorem dealAttrVal_isSome (a m : Int) (h : (shm a m).isSome) :
    (dealAttrVal zone shm src v a m).isSome := by
  unfold dealAttrVal
  cases recordOfVal zone shm src v with
  | none => exact h
  | some p =>
    show (Shm.set shm p v.attrId src.iMachineId a m).isSome
    unfold Shm.set
    split
    · rfl
    · exact h

/-- The list of the hash has a node for every record. -/
theorem dealReport_nodes (zone : Nat) (src : Src) (v : AttrVal) (free : ToDb) (hn : db.nodes.Nodup)
    (hm : ∀ a m, (a, m) ∈ db.nodes ↔ (db.shm a m).isSome) :
    (dealReport zone src v free db).nodes.Nodup ∧
      ∀ a m, (a, m) ∈ (dealReport zone src v free db).nodes ↔
        ((dealReport zone src v free db).shm a m).isSome := by
  unfold dealReport
  dsimp only
  split
  · rename_i hnew
    constructor
    · refine nodup_cons.mpr ⟨fun hmem => ?_, hn⟩
      rw [hm, isSome_iff_ne_none] at hmem
      exact hmem (isNone_iff_eq_none.mp hnew.1)
    · intro a m
      by_cases hkey : a = v.attrId ∧ m = src.iMachineId
      · obtain ⟨rfl, rfl⟩ := hkey
        simpa using hnew.2
      · show (a, m) ∈ (v.attrId, src.iMachineId) :: db.nodes ↔
          (dealAttrVal zone db.shm src v a m).isSome
        rw [dealAttrVal_of_ne hkey, ← hm, mem_cons, Prod.mk.injEq]
        exact or_iff_right hkey
  · rename_i hold
    refine ⟨hn, fun a m => ?_⟩
    rw [hm]
    show (db.shm a m).isSome ↔ (dealAttrVal zone db.shm src v a m).isSome
    by_cases hkey : a = v.attrId ∧ m = src.iMachineId
    · obtain ⟨rfl, rfl⟩ := hkey
      refine ⟨dealAttrVal_isSome _ _, fun hs => ?_⟩
      cases hno : db.shm v.attrId src.iMachineId with
      | none => exact absurd ⟨by rw [hno]; rfl, hs⟩ hold
      | some p => rfl
    · rw [dealAttrVal_of_ne hkey]

theorem dealReport_shm (zone : Nat) (src : Src) (v : AttrVal) (free : ToDb) (db : Db) :
    (dealReport zone src v free db).shm = dealAttrVal zone db.shm src v ∧
      (dealReport zone src v free db).rows = db.rows := by
  unfold dealReport
  dsimp only
  split <;> exact ⟨rfl, rfl⟩

theorem dealReport_toDb {free : ToDb} (h : (db.shm a m).isSome) :
    (dealReport zone src v free db).toDb a m = db.toDb a m := by
  unfold dealReport
  dsimp only
  split
  · rename_i hnew
    refine if_neg fun hkey => ?_
    obtain ⟨rfl, rfl⟩ := hkey
    rw [isNone_iff_eq_none.mp hnew.1] at h
    cases h
  · rfl

theorem slotRows_dealReport (zone : Nat) (a m : Int) (src : Src) (v : AttrVal) (free : ToDb)
    (db : Db) (j : Int) :
    slotRows zone a m (dealReport zone src v free db) j = slotRows zone a m db j := by
  rw [slotRows, slotRows, (dealReport_shm zone src v free db).2]

/-- A value leaves the pair as it is, or the record is one of today afterwards. -/
theorem today_of_val (hs : StoresOrKeeps zone a m ty 1 shm src v)
    (hr : RecOk zone ty h src.now (shm a m)) (hb : src.now.toNat + 120 < 2 ^ 32) :
    (stored zone a m shm src v = [] ∧ dealAttrVal zone shm src v a m = shm a m) ∨
      (v.attrId = a ∧ src.iMachineId = m) ∧
      stored zone a m shm src v = [(slotOf zone 1 src.now, v.attrValue)] ∧
      ∃ q, dealAttrVal zone shm src v a m = some q ∧ q.dwLastReportTime = src.now ∧
        Today zone ty (h ++ [(slotOf zone 1 src.now, v.attrValue)]) q src.now := by
  rcases hs with hkeep | ⟨hkey, -, hst, ⟨p, hp, hq⟩ | ⟨hnone, q, hq⟩⟩
  · exact .inl hkeep
  · rw [hp] at hr
    refine .inr ⟨hkey, hst, _, hq, rfl, ?_⟩
    rcases hr with hr | hr
    · exact hr.addVal rfl (UInt32.le_refl _) hb _ _
    · exact hr.addVal rfl hb _ _
  · rw [hnone] at hr
    refine .inr ⟨hkey, hst, _, hq, rfl, ?_⟩
    rw [show h = [] from hr]
    exact .init ..

/-- After a value for the newest slot an earlier one has its value as before, and a
later one has none. -/
theorem slotVals_append_newest (ty : DataType) {k : Int}
    {v : UInt32} (hnew : ∀ r ∈ h, r.1 ≤ j) (hk : slotVals (h ++ [(j, v)]) k ≠ []) :
    k = j ∨ slotVals h k ≠ [] ∧ aggregate ty (h ++ [(j, v)]) k = aggregate ty h k := by
  by_cases heq : j = k
  · exact .inl heq.symm
  rw [slotVals_append, if_neg heq, append_nil] at hk
  refine .inr ⟨hk, aggregate_append_of_lt ?_⟩
  rcases Int.lt_or_le j k with hlt | hle
  · exact absurd (slotVals_of_lt hnew hlt) hk
  · omega

section Report

variable {src : Src} {v : AttrVal} {free : ToDb}

theorem Inv.report_kept (h : Inv zone a m ty s)
    (hrec : dealAttrVal zone s.db.shm src v a m = s.db.shm a m) :
    Inv zone a m ty { s with db := dealReport zone src v free s.db } := by
  have hshm := (dealReport_shm zone src v free s.db).1
  obtain ⟨hnodup, hmem⟩ := dealReport_nodes zone src v free h.nodup h.mem
  have hsr := slotRows_dealReport zone a m src v free s.db
  refine ⟨by rw [hshm, hrec]; exact h.record, hnodup, hmem, fun j hj => ?_, fun k h0 hk => ?_,
    fun k h0 hk => ?_, fun hp => ?_⟩
  · rw [hsr]; exact h.future j hj
  · rw [hsr]; exact h.rows k h0 hk
  · rw [hsr]; exact h.good k h0 hk
  · rw [hshm, hrec] at hp
    simp only [hsr, dealReport_toDb hp]
    exact h.mark hp

/-- What a pass finds of the pair is not changed by a report. -/
theorem Inv.mark_report (h : Inv zone a m ty s) (hnow : s.now = src.now)
    (hkey : v.attrId = a ∧ src.iMachineId = m)
    (hsome : (dealAttrVal zone s.db.shm src v a m).isSome) (hfree : free.Past zone src.now)
    (hle : s.now ≤ t) (hd : dayOf zone s.now = dayOf zone t) (hb : t.toNat + 120 < 2 ^ 32)
    (hc : slotOf zone 1 s.now < slotOf zone 1 t ∨
      1 ≤ slotOf zone 1 t ∧ slotVals s.hist (slotOf zone 1 t - 1) ≠ []) :
    isStored ((dealReport zone src v free s.db).toDb a m) 60 t (slotOf zone 1 t) = true ↔
      slotRows zone a m s.db (slotOf zone 1 t) ≠ [] := by
  cases hp : s.db.shm a m with
  | some p =>
    have hp' : (s.db.shm a m).isSome := by rw [hp]; rfl
    rw [dealReport_toDb hp']
    exact h.mark hp' t hle hd hb hc
  | none =>
    -- the node was unused, and there is no report yet
    have hr := h.record
    rw [hp] at hr
    have hempty : s.hist = [] := hr
    have hlt : slotOf zone 1 s.now < slotOf zone 1 t := by
      rcases hc with hc | ⟨_, hc⟩
      · exact hc
      · rw [hempty] at hc
        exact absurd rfl hc
    have hnew : (dealReport zone src v free s.db).toDb a m = free := by
      obtain ⟨rfl, rfl⟩ := hkey
      unfold dealReport
      rw [if_pos ⟨by rw [hp]; rfl, hsome⟩]
      simp
    rw [hnew, (h.future _ hlt).1]
    rw [hnow] at hd hlt
    exact ⟨fun hs => absurd hs (hfree.not_isStored hd hlt), fun hne => absurd rfl hne⟩

theorem Inv.report_stored (h : Inv zone a m ty s) (hnow : s.now = src.now)
    (hkey : v.attrId = a ∧ src.iMachineId = m) (hfree : free.Past zone src.now)
    {q : WarnAttrReportInfo} (hq : dealAttrVal zone s.db.shm src v a m = some q)
    (hlast : q.dwLastReportTime = src.now)
    (htoday : Today zone ty (s.hist ++ [(slotOf zone 1 src.now, v.attrValue)]) q src.now) :
    Inv zone a m ty { s with
      db := dealReport zone src v free s.db
      hist := s.hist ++ [(slotOf zone 1 src.now, v.attrValue)] } := by
  have hshm := (dealReport_shm zone src v free s.db).1
  obtain ⟨hnodup, hmem⟩ := dealReport_nodes zone src v free h.nodup h.mem
  have hsr := slotRows_dealReport zone a m src v free s.db
  have hnew : ∀ r ∈ s.hist, r.1 ≤ slotOf zone 1 src.now := fun r hr => by
    have hle := htoday.newest r (mem_append_left _ hr)
    rwa [htoday.idx, hlast] at hle
  have hfut := h.future (slotOf zone 1 src.now + 1) (by rw [hnow]; omega)
  refine ⟨by rw [hshm, hq, hnow]; exact .inl htoday, hnodup, hmem, fun j hj => ?_,
    fun k h0 hk => ?_, fun k h0 hk => ?_, fun _ t hle hd hbt hc => ?_⟩
  · rw [hsr]; exact h.future j hj
  · rw [hsr]
    rcases slotVals_append_newest ty hnew hk with rfl | ⟨hk1, hagg⟩
    · exact fun hne => absurd hfut.1 hne
    · rw [hagg]
      exact h.rows k h0 hk1
  · rw [hsr]
    rcases slotVals_append_newest ty hnew hk with rfl | ⟨hk1, hagg⟩
    · exact fun ⟨r, hr, hf, _, hs⟩ => absurd ⟨r, hr, hf, hs⟩ hfut.2
    · rw [hagg]
      exact h.good k h0 hk1
  · rw [hsr]
    refine h.mark_report hnow hkey (by rw [hq]; rfl) hfree hle hd hbt ?_
    rcases hc with hc | ⟨h1, hc⟩
    · exact .inl hc
    rcases slotVals_append_newest ty hnew hc with hk1 | ⟨hk1, _⟩
    · rw [hnow]
      omega
    · exact .inr ⟨h1, hk1⟩

/-- **A report.** -/
theorem Inv.report (h : Inv zone a m ty s)
    (hnow : s.now = src.now) (hb : src.now.toNat + 120 < 2 ^ 32) (hty : ty.isStr = false)
    (hfix : v.attrId = a → ∀ info, v.attrInfo = some info → info = ⟨ty, 1⟩)
    (hfree : free.Past zone src.now) :
    Inv zone a m ty { s with
      db := dealReport zone src v free s.db
      hist := s.hist ++ stored zone a m s.db.shm src v } := by
  have hr := h.record
  rw [hnow] at hr
  rcases today_of_val (dealAttrVal_pair zone m s.db.shm src hty hfix) hr hb with
    ⟨hst, hrec⟩ | ⟨hkey, hst, q, hq, hlast, htoday⟩
  · rw [hst, append_nil]
    exact h.report_kept hrec
  · rw [hst]
    exact h.report_stored hnow hkey hfree hq hlast htoday

end Report

/-! ### A pass -/

theorem reportIsOld_eq (hst : p.wStaticTime = 1) (now : UInt32) :
    reportIsOld p now = decide (now ≥ p.dwLastReportTime + 60) := by
  unfold reportIsOld staticSecs
  rw [hst]
  rfl

/-- A pass that finds a fresh report takes the value of the slot before. -/
theorem Today.valBefore_eq (hp : Today zone ty h p now) (hf : reportIsOld p now = false)
    (hs : slotVals h (slotOf zone 1 now - 1) ≠ []) (h1 : 1 ≤ slotOf zone 1 now) :
    valBefore p now (slotOf zone 1 now) = aggregate ty h (slotOf zone 1 now - 1) := by
  have hhi : p.iMinIdx ≤ slotOf zone 1 now := by
    rw [hp.idx]
    exact slotOf_one_mono hp.day hp.le
  have hlo : slotOf zone 1 now - 1 ≤ p.iMinIdx := by
    rcases Int.lt_or_le p.iMinIdx (slotOf zone 1 now - 1) with hlt | hle
    · exact absurd (slotVals_of_lt hp.newest hlt) hs
    · exact hle
  unfold valBefore
  rw [hf]
  by_cases heq : slotOf zone 1 now = p.iMinIdx
  · rw [if_neg (not_not_intro heq)]
    rw [heq] at hs ⊢
    exact hp.last (by omega) hs
  · have hnext : p.iMinIdx + 1 = slotOf zone 1 now := by omega
    have hprev : slotOf zone 1 now - 1 = p.iMinIdx := by omega
    rw [if_pos heq, if_pos hnext, hprev]
    exact hp.cur

/-- Nothing is stored today of a record of an earlier day. -/
theorem Old.valBefore_eq (hp : Old zone h p now) : valBefore p now (slotOf zone 1 now) = 0 := by
  unfold valBefore
  by_cases hold : reportIsOld p now = true
  · rw [if_pos hold]
  rw [if_neg hold]
  rw [reportIsOld_eq hp.static, decide_eq_true_eq] at hold
  have hlt : now.toNat < (p.dwLastReportTime + 60).toNat :=
    UInt32.lt_iff_toNat_lt.mp (UInt32.not_le.mp hold)
  rw [UInt32.toNat_add] at hlt
  have h60 : (60 : UInt32).toNat = 60 := rfl
  have h1 := toNat_add_zone zone p.dwLastReportTime
  have h2 := toNat_add_zone zone now
  have hday := hp.day
  have hi := hp.idx
  rw [slotOf_one] at hi
  rw [slotOf_one]
  rw [if_pos (by omega), if_neg (by omega)]

theorem pass_pair (h : Inv zone a m ty s) {iRand : Nat} (tableOk : Bool)
    (fail : Option Nat) (hgate : gateClosed s.db now iRand = false)
    (hdb : db' = writeAttrDataToDb zone now iRand tableOk fail s.db) :
    db'.shm = s.db.shm ∧ db'.nodes = s.db.nodes ∧
      match s.db.shm a m with
      | none => Same zone a m s.db db'
      | some p =>
        Passes zone a m now p ((tableOk && fail.isNone) = true) s.db db' := by
  have htry : Same zone a m s.db { s.db with dwLastTrySaveDbTime := now } := ⟨fun _ => rfl, rfl⟩
  unfold writeAttrDataToDb at hdb
  rw [if_neg (by rw [hgate]; decide)] at hdb
  cases tableOk with
  | false =>
    rw [hdb]
    refine ⟨rfl, rfl, ?_⟩
    split
    · exact htry
    · exact ⟨.inl htry, fun hok => by cases hok⟩
  | true =>
    obtain ⟨h1, h2⟩ := writeLoop_frame zone now s.db.nodes fail
      { s.db with dwLastTrySaveDbTime := now }
    rw [hdb]
    refine ⟨h1, h2, ?_⟩
    have hmem := h.mem a m
    have hr := h.record
    split
    · rename_i hnone
      rw [hnone] at hmem
      refine htry.trans (writeLoop_of_not_mem zone a m now _ _ _ fun hin => ?_)
      cases hmem.mp hin
    · rename_i p hp
      rw [hp] at hmem hr
      have hst : p.wStaticTime = 1 := hr.elim (fun hr => hr.static) (fun hr => hr.static)
      refine htry.passes (writeLoop_pair zone now hst s.db.nodes fail _ hp h.nodup) fun hok => ?_
      exact ⟨isNone_iff_eq_none.mp hok, hmem.mpr rfl⟩

theorem Inv.not_tried (h : Inv zone a m ty s) (hr : r.now = s.now) (hj : slotOf zone 1 s.now < j) :
    ¬ Tried zone (s.ran ++ [r]) j := by
  intro htried
  rcases tried_append.mp htried with htried | ⟨_, heq⟩
  · exact (h.future j hj).2 htried
  · rw [hr] at heq
    omega

/-- A pass that leaves the pair as it was keeps the invariant, if it was not one
that had to store it. -/
theorem Inv.pass_same (h : Inv zone a m ty s) (hr : r.now = s.now)
    (hshm : db'.shm = s.db.shm) (hnodes : db'.nodes = s.db.nodes) (hs : Same zone a m s.db db')
    (hgood : r.fresh = true → r.ok = true → 1 ≤ slotOf zone 1 s.now →
      slotVals s.hist (slotOf zone 1 s.now - 1) ≠ [] →
      aggregate ty s.hist (slotOf zone 1 s.now - 1) ≠ 0 →
      slotRows zone a m s.db (slotOf zone 1 s.now) ≠ []) :
    Inv zone a m ty { s with db := db', ran := s.ran ++ [r] } where
  record := by rw [hshm]; exact h.record
  nodup := by rw [hnodes]; exact h.nodup
  mem := by rw [hshm, hnodes]; exact h.mem
  future j hj := ⟨by rw [hs.rows]; exact (h.future j hj).1, h.not_tried hr hj⟩
  rows k h0 hk hne := by
    rw [hs.rows] at hne ⊢
    obtain ⟨htried, hrow⟩ := h.rows k h0 hk hne
    exact ⟨tried_append.mpr (.inl htried), hrow⟩
  good k h0 hk hg hagg := by
    rw [hs.rows]
    rcases good_append.mp hg with hg | ⟨hf, hok, heq⟩
    · exact h.good k h0 hk hg hagg
    · rw [hr] at heq
      have hk1 : slotOf zone 1 s.now - 1 = k := by omega
      rw [← heq]
      exact hgood hf hok (by omega) (by rw [hk1]; exact hk) (by rw [hk1]; exact hagg)
  mark hp t hle hd hb hc := by
    rw [hs.rows, hs.toDb]
    rw [hshm] at hp
    exact h.mark hp t hle hd hb hc

/-- A node that was just stored is taken for stored in the same slot only. -/
theorem isStored_now_iff (hb : now.toNat + 120 < 2 ^ 32) (hd : dayOf zone now = dayOf zone t)
    (h1 : slotOf zone 1 now = slotOf zone 1 t → 1 ≤ slotOf zone 1 now) :
    isStored ⟨UInt16.ofInt (slotOf zone 1 now), now⟩ 60 t (slotOf zone 1 t) = true ↔
      slotOf zone 1 now = slotOf zone 1 t := by
  have hnn := slotOf_one_nonneg zone now
  have hlt : slotOf zone 1 now < 1440 := by
    have : secOfDay zone now < 86400 := Nat.mod_lt _ (by decide)
    rw [slotOf_one]
    omega
  have hidx : ((UInt16.ofInt (slotOf zone 1 now)).toNat : Int) = slotOf zone 1 now := by
    unfold UInt16.ofInt
    rw [UInt16.toNat_ofNat']
    omega
  unfold isStored
  rw [decide_eq_true_eq]
  constructor
  · intro hst
    exact hidx.symm.trans hst.1
  intro heq
  have hnear := toNat_le_of_slot_eq hd heq (h1 heq)
  have h60 : (now + 60).toNat = now.toNat + 60 := by
    exact Nat.mod_eq_of_lt (show now.toNat + 60 < 2 ^ 32 by omega)
  refine ⟨hidx.trans heq, le_iff_toNat_le.mpr ?_⟩
  show t.toNat ≤ (now + 60).toNat
  omega

/-- A pair that a pass finds not stored has no row in the slot of the pass. -/
theorem Inv.slotRows_eq_nil (h : Inv zone a m ty s) (hp : (s.db.shm a m).isSome)
    (hb : s.now.toNat + 120 < 2 ^ 32)
    (hstored : isStored (s.db.toDb a m) 60 s.now (slotOf zone 1 s.now) = false)
    (h1 : 1 ≤ slotOf zone 1 s.now) (hk : slotVals s.hist (slotOf zone 1 s.now - 1) ≠ []) :
    slotRows zone a m s.db (slotOf zone 1 s.now) = [] := by
  have hmark := h.mark hp s.now (UInt32.le_refl _) rfl hb (.inr ⟨h1, hk⟩)
  rw [hstored] at hmark
  cases hrows : slotRows zone a m s.db (slotOf zone 1 s.now) with
  | nil => rfl
  | cons x xs =>
    have hne : slotRows zone a m s.db (slotOf zone 1 s.now) ≠ [] := by simp [hrows]
    exact absurd (hmark.mpr hne) (by decide)

/-- A pass that stored the pair, whose last report was fresh. -/
theorem Inv.pass_wrote (h : Inv zone a m ty s) {v : UInt32}
    (hp : (s.db.shm a m).isSome) (hr : r.now = s.now) (hfresh : r.fresh = true)
    (hshm : db'.shm = s.db.shm) (hnodes : db'.nodes = s.db.nodes)
    (hw : Wrote zone a m s.now v s.db db') (hb : s.now.toNat + 120 < 2 ^ 32)
    (hstored : isStored (s.db.toDb a m) 60 s.now (slotOf zone 1 s.now) = false)
    (hv : 1 ≤ slotOf zone 1 s.now → slotVals s.hist (slotOf zone 1 s.now - 1) ≠ [] →
      v = aggregate ty s.hist (slotOf zone 1 s.now - 1)) :
    Inv zone a m ty { s with db := db', ran := s.ran ++ [r] } := by
  have hother : ∀ j, slotOf zone 1 s.now ≠ j →
      slotRows zone a m db' j = slotRows zone a m s.db j := fun j hj => by
    rw [hw.rows, if_neg hj, append_nil]
  have hself : slotRows zone a m db' (slotOf zone 1 s.now) ≠ [] := by
    rw [hw.rows, if_pos rfl]
    exact append_ne_nil_of_right_ne_nil _ (cons_ne_nil _ _)
  refine ⟨by rw [hshm]; exact h.record, by rw [hnodes]; exact h.nodup,
    by rw [hshm, hnodes]; exact h.mem, fun j hj => ⟨?_, h.not_tried hr hj⟩,
    fun k h0 hk hne => ?_, fun k h0 hk hg hagg => ?_, fun _ t hle hd hbt hc => ?_⟩
  · rw [hother j (Int.ne_of_lt hj)]
    exact (h.future j hj).1
  · by_cases heq : slotOf zone 1 s.now = k + 1
    · -- the slot of the pass: nothing was stored in it before
      have hk1 : slotOf zone 1 s.now - 1 = k := by omega
      have h1 : 1 ≤ slotOf zone 1 s.now := by omega
      have hk2 : slotVals s.hist (slotOf zone 1 s.now - 1) ≠ [] := by rw [hk1]; exact hk
      refine ⟨tried_append.mpr (.inr ⟨hfresh, by rw [hr]; exact heq⟩), ?_⟩
      rw [← heq, hw.rows, if_pos rfl, h.slotRows_eq_nil hp hb hstored h1 hk2, hv h1 hk2, hk1]
      rfl
    · rw [hother _ heq] at hne ⊢
      obtain ⟨htried, hrow⟩ := h.rows k h0 hk hne
      exact ⟨tried_append.mpr (.inl htried), hrow⟩
  · by_cases heq : slotOf zone 1 s.now = k + 1
    · rw [← heq]; exact hself
    rw [hother _ heq]
    rcases good_append.mp hg with hg | ⟨_, _, heq'⟩
    · exact h.good k h0 hk hg hagg
    · rw [hr] at heq'
      omega
  · have h1 : slotOf zone 1 s.now = slotOf zone 1 t → 1 ≤ slotOf zone 1 s.now := fun heq => by
      rcases hc with hlt | ⟨h1, _⟩
      · exact absurd heq (Int.ne_of_lt hlt)
      · rw [heq]; exact h1
    rw [hw.toDb, isStored_now_iff hb hd h1]
    by_cases heq : slotOf zone 1 s.now = slotOf zone 1 t
    · exact ⟨fun _ => by rw [← heq]; exact hself, fun _ => heq⟩
    -- in a later slot nothing is stored
    have hlt : slotOf zone 1 s.now < slotOf zone 1 t := by
      have hle' : slotOf zone 1 s.now ≤ slotOf zone 1 t := slotOf_one_mono hd hle
      omega
    rw [hother _ heq, (h.future _ hlt).1]
    exact ⟨fun he => absurd he heq, fun hne => absurd rfl hne⟩

section Record

variable {h : List (Int × UInt32)} {p : WarnAttrReportInfo} {now : UInt32}

/-- A pair that is due has a fresh report of today. -/
theorem RecOk.of_due {d : ToDb} (hr : RecOk zone ty h now (some p)) (hdue : Due zone p d now) :
    reportIsOld p now = false ∧ Today zone ty h p now := by
  constructor
  · cases hold : reportIsOld p now with
    | false => rfl
    | true =>
      have h0 := hdue.1
      unfold valBefore at h0
      rw [if_pos hold] at h0
      exact absurd rfl h0
  · rcases hr with hr | hr
    · exact hr
    · exact absurd hr.valBefore_eq hdue.1

theorem RecOk.today (hr : RecOk zone ty h now (some p)) {k : Int} (h0 : 0 ≤ k)
    (hk : slotVals h k ≠ []) : Today zone ty h p now := by
  rcases hr with hr | hr
  · exact hr
  · rw [hr.hist] at hk
    exact absurd (slotVals_of_lt (m := -1) (by simp) (by omega)) hk

end Record

/-- **A pass.** -/
theorem Inv.pass (h : Inv zone a m ty s) {iRand : Nat} (tableOk : Bool) (fail : Option Nat)
    (hgate : gateClosed s.db s.now iRand = false) (hb : s.now.toNat + 120 < 2 ^ 32) :
    Inv zone a m ty { s with
      db := writeAttrDataToDb zone s.now iRand tableOk fail s.db
      ran := s.ran ++ [⟨s.now, tableOk && fail.isNone, isFresh s.db.shm a m s.now⟩] } := by
  obtain ⟨hshm, hnodes, heff⟩ := pass_pair h tableOk fail hgate rfl
  have hr := h.record
  cases hp : s.db.shm a m with
  | none =>
    rw [hp] at heff
    exact h.pass_same rfl hshm hnodes heff fun hf => by simp [isFresh, hp] at hf
  | some p =>
    rw [hp] at heff hr
    have hsome : (s.db.shm a m).isSome := by rw [hp]; rfl
    have hfresh : isFresh s.db.shm a m s.now = true ↔ reportIsOld p s.now = false := by
      simp [isFresh, hp]
    obtain ⟨hsame | ⟨hd, hw⟩, heff2⟩ := heff
    · refine h.pass_same rfl hshm hnodes hsame fun hf hok h1 hk hagg => ?_
      -- a pass without errors that finds the pair not stored would have stored it
      have hval := (hr.today (by omega) hk).valBefore_eq (hfresh.mp hf) hk h1
      have hmark := h.mark hsome s.now (UInt32.le_refl _) rfl hb (.inr ⟨h1, hk⟩)
      cases hstored : isStored (s.db.toDb a m) 60 s.now (slotOf zone 1 s.now) with
      | true => exact hmark.mp hstored
      | false =>
        have hw := heff2 hok ⟨by rw [hval]; exact hagg, hstored⟩
        rw [← hsame.rows, hw.rows, if_pos rfl]
        exact append_ne_nil_of_right_ne_nil _ (cons_ne_nil _ _)
    · obtain ⟨hold, htoday⟩ := hr.of_due hd
      exact h.pass_wrote hsome rfl (hfresh.mpr hold) hshm hnodes hw hb hd.2
        fun h1 hk => htoday.valBefore_eq hold hk h1

end Steps

/-! ## A day -/

/-- The start of a day: no rows yet, and a record of the pair, if there is one, of
an earlier day. -/
structure StartOk (zone : Nat) (a m : Int) (now : UInt32) (db : Db) : Prop where
  old : ∀ p, db.shm a m = some p → dayOf zone p.dwLastReportTime < dayOf zone now ∧
    p.wStaticTime = 1 ∧ p.iMinIdx = slotOf zone 1 p.dwLastReportTime
  past : (db.toDb a m).Past zone now
  nodup : db.nodes.Nodup
  mem : ∀ a' m', (a', m') ∈ db.nodes ↔ (db.shm a' m').isSome
  rows : db.rows = []

def Sys.start (a m : Int) (now : UInt32) (db : Db) : Sys := ⟨now, db, carried (db.shm a m), []⟩

/-- Time does not go back or into the next day and stays clear of the end of its
32 bits; the attribute has static time 1 and one type; an unused node was not
last stored in the future. -/
def StepOk (zone : Nat) (a : Int) (ty : DataType) (s : Sys) (l : Label) : Prop :=
  s.now ≤ l.now ∧ dayOf zone s.now = dayOf zone l.now ∧ l.now.toNat + 120 < 2 ^ 32 ∧
    match l with
    | .report src v free =>
      (v.attrId = a → ∀ info, v.attrInfo = some info → info = ⟨ty, 1⟩) ∧ free.Past zone src.now
    | .pass _ _ _ _ => True

theorem Inv.start {zone : Nat} {a m : Int} {now : UInt32} {db : Db} (ty : DataType)
    (h : StartOk zone a m now db) : Inv zone a m ty (Sys.start a m now db) := by
  have hrows : ∀ j, slotRows zone a m db j = [] := fun j => by rw [slotRows, h.rows]; rfl
  have hhist : ∀ k, 0 ≤ k → slotVals (carried (db.shm a m)) k = [] := by
    intro k hk
    refine slotVals_of_lt (m := -1) (fun r hr => ?_) (by omega)
    revert hr
    cases db.shm a m with
    | none => exact fun hr => by cases hr
    | some p =>
      intro hr
      cases mem_singleton.mp hr
      exact Int.le_refl _
  refine ⟨?_, h.nodup, h.mem, fun j _ => ⟨hrows j, ?_⟩, fun k h0 hk => absurd (hhist k h0) hk,
    fun k h0 hk => absurd (hhist k h0) hk, fun _ t hle hd hb hc => ?_⟩
  · unfold Sys.start
    cases hp : db.shm a m with
    | none => exact rfl
    | some p =>
      obtain ⟨h1, h2, h3⟩ := h.old p hp
      exact .inr ⟨h1, h2, h3, rfl⟩
  · rintro ⟨r, hr, _⟩
    cases hr
  · have hlt : slotOf zone 1 now < slotOf zone 1 t := by
      rcases hc with hc | ⟨h1, hc⟩
      · exact hc
      · exact absurd (hhist _ (by omega)) hc
    refine ⟨fun hs => absurd hs (h.past.not_isStored hd hlt), fun hne => absurd (hrows _) hne⟩

/-- **One step.** -/
theorem Inv.step_inv (zone : Nat) (a m : Int) {ty : DataType} (hty : ty.isStr = false) (s : Sys)
    (l : Label) (h : Inv zone a m ty s) (hok : StepOk zone a ty s l) :
    ∃ s', step zone a m s l = some s' ∧ Inv zone a m ty s' := by
  obtain ⟨hle, hd, hb, hl⟩ := hok
  have hlater := h.later hd hle
  cases l with
  | report src v free => exact ⟨_, rfl, hlater.report rfl hb hty hl.1 hl.2⟩
  | pass now iRand tableOk fail =>
    refine ⟨_, rfl, ?_⟩
    cases hgate : gateClosed s.db now iRand with
    | false =>
      exact hlater.pass tableOk fail hgate hb
    | true =>
      have hnone : writeAttrDataToDb zone now iRand tableOk fail s.db = s.db := by
        rw [writeAttrDataToDb, if_pos hgate]
      rw [hnone]
      exact hlater

/-- For every run of reports and passes of a day and every slot with a value: if
in the next slot a pass without errors finds the last report of the pair less than
a minute old, then exactly one row of the pair is inserted there, with the final
value of the slot. If no pass in the next slot does, none is. -/
theorem slot_rows (zone : Nat) (a m : Int) (ty : DataType) (hty : ty.isStr = false)
    (now : UInt32) (db : Db) (h0 : StartOk zone a m now db) (ls : List Label)
    (hok : Meets (step zone a m) (StepOk zone a ty) ls (Sys.start a m now db)) :
    ∃ s', run (step zone a m) ls (Sys.start a m now db) = some s' ∧
      ∀ k, 0 ≤ k → aggregate ty s'.hist k ≠ 0 → (Good zone s'.ran (k + 1) →
          slotRows zone a m s'.db (k + 1) = [aggregate ty s'.hist k]) ∧
        (¬ Tried zone s'.ran (k + 1) → slotRows zone a m s'.db (k + 1) = []) := by
  obtain ⟨s', hr, h⟩ := run_inv (Inv.step_inv zone a m hty) (Inv.start ty h0) hok
  refine ⟨s', hr, fun k hk hagg => ?_⟩
  have hvals : slotVals s'.hist k ≠ [] := by
    intro hnil
    exact hagg (by simp [aggregate, hnil])
  refine ⟨fun hg => (h.rows k hk hvals (h.good k hk hvals hg hagg)).2, fun hno => ?_⟩
  cases hrows : slotRows zone a m s'.db (k + 1) with
  | nil => rfl
  | cons x xs => exact absurd (h.rows k hk hvals (by rw [hrows]; exact cons_ne_nil _ _)).1 hno

/-- Midnight before 14 November 2023. -/
def midnight : Nat := 1699920000

/-- A report of value 5 of attribute 1 from machine 1, `sec` seconds into the day. -/
def reportAt (sec : Nat) : Label :=
  .report ⟨ofNat (midnight + sec), 1, 0⟩
    ⟨1, 5, some ⟨.sumReportM, 1⟩, some ⟨0, 0, 0, 0, 0, 0, 0, 0, .sumReportM, 0⟩, false⟩ ⟨0, 0⟩

def passAt (sec : Nat) : Label := .pass (ofNat (midnight + sec)) 0 true none

def emptyDb : Db := ⟨fun _ _ => none, [], fun _ _ => ⟨0, 0⟩, 0, []⟩

/-- A report at 10:00:05 and a pass at 10:01:04. -/
theorem slot_rows_minute : ∃ s', run (step 0 1 1) [reportAt 36005, passAt 36064]
        (Sys.start 1 1 (ofNat midnight) emptyDb) = some s' ∧
      slotRows 0 1 1 s'.db 601 = [5] := by
  have hold : StartOk 0 1 1 (ofNat midnight) emptyDb :=
    ⟨fun p hp => (by cases hp), .inr (by decide +kernel), nodup_nil,
      fun a m => ⟨fun h => (by cases h), fun h => (by cases h)⟩, rfl⟩
  have hmeets : Meets (step 0 1 1) (StepOk 0 1 .sumReportM) [reportAt 36005, passAt 36064]
      (Sys.start 1 1 (ofNat midnight) emptyDb) := by
    refine ⟨⟨by decide +kernel, by decide +kernel, by decide +kernel,
      fun _ info hi => (Option.some.inj hi).symm, .inr (by decide +kernel)⟩, fun s hs => ?_⟩
    cases hs
    exact ⟨⟨by decide +kernel, by decide +kernel, by decide +kernel, trivial⟩, fun _ _ => trivial⟩
  obtain ⟨s', hr, hk⟩ := slot_rows 0 1 1 .sumReportM rfl _ _ hold _ hmeets
  refine ⟨s', hr, ?_⟩
  have hend : (run (step 0 1 1) [reportAt 36005, passAt 36064]
      (Sys.start 1 1 (ofNat midnight) emptyDb)).map (fun s => (s.hist, s.ran)) =
      some ([(600, 5)], [⟨ofNat (midnight + 36064), true, true⟩]) := by decide +kernel
  rw [hr, map_some, Option.some.injEq, Prod.mk.injEq] at hend
  rw [hend.1, hend.2] at hk
  exact (hk 600 (by decide) (by decide)).1 ⟨_, mem_singleton_self _, rfl, rfl, by decide +kernel⟩

/-- A pass six seconds into every minute of the day, and a report at 10:00:05. -/
def lossDay : List Label :=
  (List.range' 0 600).map (fun j => passAt (60 * j + 6)) ++
    reportAt 36005 :: (List.range' 600 840).map (fun j => passAt (60 * j + 6))

/-- The gate lets a pass through. -/
def Opens (s : Sys) : Label → Prop
  | .report _ _ _ => True
  | .pass now iRand _ _ => gateClosed s.db now iRand = false

instance (s : Sys) (l : Label) : Decidable (Opens s l) :=
  match l with
  | .report _ _ _ => .isTrue trivial
  | .pass now iRand _ _ => inferInstanceAs (Decidable (gateClosed s.db now iRand = false))

theorem mem_ran {zone : Nat} {a m : Int} {s' : Sys} {Q : Sys → Label → Prop} : ∀ {ls} {s},
      Meets (step zone a m) (fun s l => Opens s l ∧ Q s l) ls s → run (step zone a m) ls s = some s' →
      s.ran ⊆ s'.ran ∧ ∀ now iRand tableOk fail, .pass now iRand tableOk fail ∈ ls →
        ∃ r ∈ s'.ran, r.now = now ∧ r.ok = (tableOk && fail.isNone)
  | [], s, _, hr => by
    cases hr
    exact ⟨fun _ => id, nofun⟩
  | l :: ls, s, hm, hr => by
    obtain ⟨s1, hs, hr⟩ := bind_eq_some_iff.mp hr
    obtain ⟨hsub, hmem⟩ := mem_ran (hm.2 s1 hs) hr
    cases l with
    | report src v free =>
      cases hs
      exact ⟨hsub, fun now iRand ok fail hin => hmem _ _ _ _ (by simpa using hin)⟩
    | pass now iRand tableOk fail =>
      have hopen : gateClosed s.db now iRand = false := hm.1.1
      cases hs
      simp only [hopen] at hsub
      refine ⟨fun r hr => hsub (mem_append_left _ hr), fun now' iRand' ok' fail' hin => ?_⟩
      rcases mem_cons.mp hin with heq | hin
      · cases heq
        exact ⟨_, hsub (mem_append_right _ mem_cons_self), rfl, rfl⟩
      · exact hmem _ _ _ _ hin

/-- The record that the report of `lossDay` leaves. -/
def lossRecord : WarnAttrReportInfo :=
  ⟨1, 1, 0, 0, 5, 600, 0, ofNat (midnight + 36005), .sumReportM, 1⟩

/-- A pass without errors runs in every minute, but the value 5 of 10:00 is not
stored: the pass of 10:00 is in the slot of the report, and that of 10:01 comes 61
seconds after it. -/
theorem slot_row_lost :
    ∃ s', run (step 0 1 1) lossDay (Sys.start 1 1 (ofNat midnight) emptyDb) = some s' ∧
      (∀ j, j < 1440 → ∃ r ∈ s'.ran, r.ok = true ∧ secOfDay 0 r.now / 60 = j ∧
        slotOf 0 1 r.now = j) ∧
      aggregate .sumReportM s'.hist 600 = 5 ∧ s'.db.rows = [] := by
  -- at every step there is no row, and after the report its value is there
  have hm : Meets (step 0 1 1) (fun s l => Opens s l ∧ ∀ s' ∈ step 0 1 1 s l, s'.db.rows = [] ∧
      (midnight + 36005 ≤ s'.now.toNat → s'.hist = [(600, 5)] ∧ s'.db.shm 1 1 = some lossRecord))
      lossDay (Sys.start 1 1 (ofNat midnight) emptyDb) := by decide +kernel
  have hend : (run (step 0 1 1) lossDay (Sys.start 1 1 (ofNat midnight) emptyDb)).map Sys.now =
      some (ofNat (midnight + 86346)) := by decide +kernel
  obtain ⟨s', hr, hnow⟩ := map_eq_some_iff.mp hend
  obtain ⟨hrow, hhist⟩ := run_keeps (P := fun s => s.db.rows = [] ∧ (midnight + 36005 ≤ s.now.toNat →
      s.hist = [(600, 5)] ∧ s.db.shm 1 1 = some lossRecord))
    (fun s l s' _ hok hs => hok.2 s' hs) ⟨rfl, by decide +kernel⟩ hm hr
  have hhist := (hhist (by rw [hnow]; decide +kernel)).1
  refine ⟨s', hr, fun j hj => ?_, by rw [hhist]; decide, hrow⟩
  have hin : passAt (60 * j + 6) ∈ lossDay := by
    rcases lt_or_ge j 600 with hlt | hge
    · exact mem_append_left _ (List.mem_map.mpr ⟨j, mem_range'_1.mpr (by omega), rfl⟩)
    · exact mem_append_right _ (mem_cons_of_mem _
        (List.mem_map.mpr ⟨j, mem_range'_1.mpr (by omega), rfl⟩))
  obtain ⟨r, hrm, hnow, hok⟩ := (mem_ran hm hr).2 _ _ _ _ hin
  have hsec : secOfDay 0 (ofNat (midnight + (60 * j + 6))) = 60 * j + 6 := by
    unfold secOfDay midnight
    rw [toNat_ofNat', Nat.mod_eq_of_lt (b := 2 ^ 32) (by omega)]
    omega
  refine ⟨r, hrm, hok, by rw [hnow, hsec]; omega, ?_⟩
  rw [hnow, slotOf_one, hsec]
  omega

end DesPwd.L4.AttrDb
