import DesPwd.L2Machine.WarnAttr

/-!
# slog_monitor_server: the rows of an attribute in the database

`WriteAttrDataToDb` runs now and then over the records of all attributes and
inserts one row for each that has a value in the slot before the current one. A
record remembers the slot in which it was last stored, so that the passes of one
slot insert one row. The value is taken as 0 when the last report is a static
time old or older.

For an attribute with static time 1: seconds 60k+1 to 60k+60 of the day are slot
k. If the last report of a slot comes early in it and the only pass of the next
slot comes late and before any report there, the value of the slot is taken as 0
and never stored.

The pass is modelled with its time gate, the check of the table name and an SQL
error, which ends the loop. The fallback of the loop when the list of the hash is
broken and the view that a stored attribute is bound to are not.

* `writeLoop_pair`: what one pass does for a pair.
* `Today.addVal`, `Old.addVal`: what one report does to the record.

The source files are in `slog_monitor_server/`.
-/
namespace DesPwd.L4.AttrDb

open Run L2.WarnAttr List WarnAttrReportInfo UInt32

/-! ## The model -/

/-- The fields of a `TWarnAttrReportInfo` that only the pass uses. -/
structure ToDb where
  wLastToDbIdx : UInt16
  dwLastToDbTime : UInt32
  deriving DecidableEq

/-- A row of the table of the day; `time` is when it was inserted. -/
structure Row where
  attrId : Int
  machineId : Int
  value : UInt32
  clientIp : UInt32
  time : UInt32
  deriving DecidableEq

/-- The hash of the records with its list of used nodes, and the table. -/
structure Db where
  shm : Shm
  nodes : List (Int × Int)
  toDb : Int → Int → ToDb
  dwLastTrySaveDbTime : UInt32
  rows : List Row

/-- `wStaticTime*60` -/
def staticSecs (p : WarnAttrReportInfo) : UInt32 := ofNat (p.wStaticTime.toNat * 60)

/-- mirrors udp_sock.cpp:1587 -/
def reportIsOld (p : WarnAttrReportInfo) (now : UInt32) : Bool :=
  now ≥ p.dwLastReportTime + staticSecs p

/-- The value of the slot before `idx`; mirrors
udp_sock.cpp:1586-1595 -/
def valBefore (p : WarnAttrReportInfo) (now : UInt32) (idx : Int) : UInt32 :=
  if reportIsOld p now then 0
  else if idx ≠ p.iMinIdx then
    if p.iMinIdx + 1 = idx then p.dwCurVal else 0
  else p.dwLastVal

/-- mirrors udp_sock.cpp:1598 -/
def isStored (d : ToDb) (secs now : UInt32) (idx : Int) : Bool :=
  (d.wLastToDbIdx.toNat : Int) = idx ∧ d.dwLastToDbTime + secs ≥ now

/-- An insert that succeeded; mirrors udp_sock.cpp:1601-1613 -/
def Db.insert (db : Db) (a m : Int) (p : WarnAttrReportInfo) (now : UInt32) (idx : Int)
    (dwLastVal : UInt32) : Db :=
  { db with
    rows := db.rows ++ [⟨a, m, dwLastVal, p.dwLastReportIp, now⟩]
    toDb := fun a' m' => if a' = a ∧ m' = m then ⟨UInt16.ofInt idx, now⟩ else db.toDb a' m' }

/-- The loop over the nodes; `fail` is the number of inserts that succeed before
one fails. mirrors udp_sock.cpp:1578-1617 -/
def writeLoop (zone : Nat) (now : UInt32) : Option Nat → List (Int × Int) → Db → Db
  | _, [], db => db
  | fail, (a, m) :: ns, db =>
    match db.shm a m with
    | none => writeLoop zone now fail ns db
    | some p =>
      let idx := slotOf zone p.wStaticTime.toNat now
      let dwLastVal := valBefore p now idx
      if dwLastVal = 0 ∨ isStored (db.toDb a m) (staticSecs p) now idx then
        writeLoop zone now fail ns db
      else match fail with
        | some 0 => db
        | some (n + 1) => writeLoop zone now (some n) ns (db.insert a m p now idx dwLastVal)
        | none => writeLoop zone now none ns (db.insert a m p now idx dwLastVal)

/-- The gate in front of a pass; mirrors udp_sock.cpp:1550 -/
def gateClosed (db : Db) (now : UInt32) (iRand : Nat) : Bool :=
  db.dwLastTrySaveDbTime + 10 + ofNat (iRand % 30) > now

/-- `tableOk`: `CheckTableName` did not fail.
mirrors udp_sock.cpp:1546-1628 -/
def writeAttrDataToDb (zone : Nat) (now : UInt32) (iRand : Nat) (tableOk : Bool)
    (fail : Option Nat) (db : Db) : Db :=
  if gateClosed db now iRand then db
  else
    let db := { db with dwLastTrySaveDbTime := now }
    if tableOk then writeLoop zone now fail db.nodes db else db

/-- One value of a packet. A node that is taken for a new pair has the `ToDb`
fields that were left in it: a first report does not set them. -/
def dealReport (zone : Nat) (src : Src) (v : AttrVal) (free : ToDb) (db : Db) : Db :=
  let shm := dealAttrVal zone db.shm src v
  let a := v.attrId
  let m := src.iMachineId
  if (db.shm a m).isNone ∧ (shm a m).isSome then
    { db with
      shm
      nodes := (a, m) :: db.nodes
      toDb := fun a' m' => if a' = a ∧ m' = m then free else db.toDb a' m' }
  else { db with shm }

inductive Label where
  | report (src : Src) (v : AttrVal) (free : ToDb)
  | pass (now : UInt32) (iRand : Nat) (tableOk : Bool) (fail : Option Nat)

def Label.now : Label → UInt32
  | .report src _ _ => src.now
  | .pass now _ _ _ => now

/-- A pass that got through the gate: whether all of it succeeded, and whether
the last report of the pair was less than a static time old. -/
structure Ran where
  now : UInt32
  ok : Bool
  fresh : Bool
  deriving DecidableEq

/-- The server, with the reports that were stored for the pair and the passes so
far. -/
structure Sys where
  now : UInt32
  db : Db
  hist : List (Int × UInt32)
  ran : List Ran

/-- Whether a pass finds a last report of the pair that is not old. -/
def isFresh (shm : Shm) (a m : Int) (now : UInt32) : Bool :=
  match shm a m with
  | none => false
  | some p => !reportIsOld p now

def step (zone : Nat) (a m : Int) (s : Sys) : Label → Option Sys
  | .report src v free => some
    { now := src.now
      db := dealReport zone src v free s.db
      hist := s.hist ++ stored zone a m s.db.shm src v
      ran := s.ran }
  | .pass now iRand tableOk fail => some
    { now
      db := writeAttrDataToDb zone now iRand tableOk fail s.db
      hist := s.hist
      ran :=
        if gateClosed s.db now iRand then s.ran
        else s.ran ++ [⟨now, tableOk && fail.isNone, isFresh s.db.shm a m now⟩] }

/-- The values of the rows of the pair that were inserted in slot `j`. -/
def slotRows (zone : Nat) (a m : Int) (db : Db) (j : Int) : List UInt32 :=
  (db.rows.filter fun r => r.attrId = a ∧ r.machineId = m ∧ slotOf zone 1 r.time = j).map Row.value

/-! ## The slots of static time 1 -/

section Slots

variable {zone : Nat} {t t' : UInt32}

theorem toNat_add_zone (zone : Nat) (t : UInt32) :
    t.toNat + zone = dayOf zone t * 86400 + secOfDay zone t := by
  unfold dayOf secOfDay
  omega

theorem slotOf_one (zone : Nat) (t : UInt32) :
    slotOf zone 1 t = ((secOfDay zone t - 1) / 60 : Nat) := by
  have hlt : secOfDay zone t < 86400 := Nat.mod_lt _ (by decide)
  have hm := minuteOfDay_eq zone t
  have h1 : (if (1 : Int) ≤ 0 then 1 else (1 : Int).toNat) = 1 := rfl
  unfold slotOf getDayOfMin uitotimeInfo
  dsimp only
  rw [h1]
  split <;> split <;> omega

theorem slotOf_one_nonneg (zone : Nat) (t : UInt32) : 0 ≤ slotOf zone 1 t := by
  exact Int.natCast_nonneg _

variable (hd : dayOf zone t = dayOf zone t')
include hd

theorem slotOf_one_mono (hle : t ≤ t') : slotOf zone 1 t ≤ slotOf zone 1 t' := by
  have hn : t.toNat ≤ t'.toNat := le_iff_toNat_le.mp hle
  have h := toNat_add_zone zone t
  have h' := toNat_add_zone zone t'
  rw [slotOf_one, slotOf_one]
  omega

/-- Two times of one slot, not the first of the day, are less than a minute apart. -/
theorem toNat_le_of_slot_eq (hs : slotOf zone 1 t = slotOf zone 1 t') (h1 : 1 ≤ slotOf zone 1 t) :
    t'.toNat ≤ t.toNat + 59 := by
  have h := toNat_add_zone zone t
  have h' := toNat_add_zone zone t'
  rw [slotOf_one] at hs h1
  rw [slotOf_one] at hs
  omega

end Slots

/-! ## One pass -/

section Pass

variable {zone : Nat} {a m : Int} {now : UInt32} {db db' db'' : Db}

/-- Nothing of the pair changed. -/
structure Same (zone : Nat) (a m : Int) (db db' : Db) : Prop where
  rows : ∀ j, slotRows zone a m db' j = slotRows zone a m db j
  toDb : db'.toDb a m = db.toDb a m

/-- The pair got a row with value `v`. -/
structure Wrote (zone : Nat) (a m : Int) (now v : UInt32) (db db' : Db) : Prop where
  rows : ∀ j, slotRows zone a m db' j =
    slotRows zone a m db j ++ if slotOf zone 1 now = j then [v] else []
  toDb : db'.toDb a m = ⟨UInt16.ofInt (slotOf zone 1 now), now⟩

theorem Same.refl (zone : Nat) (a m : Int) (db : Db) : Same zone a m db db :=
  ⟨fun _ => rfl, rfl⟩

theorem Same.trans (h : Same zone a m db db') (h' : Same zone a m db' db'') :
    Same zone a m db db'' :=
  ⟨fun j => (h'.rows j).trans (h.rows j), h'.toDb.trans h.toDb⟩

theorem Same.trans_wrote {v : UInt32} (h : Same zone a m db db')
    (h' : Wrote zone a m now v db' db'') : Wrote zone a m now v db db'' :=
  ⟨fun j => (h'.rows j).trans (by rw [h.rows j]), h'.toDb⟩

theorem Wrote.trans_same {v : UInt32} (h : Wrote zone a m now v db db')
    (h' : Same zone a m db' db'') : Wrote zone a m now v db db'' :=
  ⟨fun j => (h'.rows j).trans (h.rows j), h'.toDb.trans h.toDb⟩

theorem insert_other {a' m' : Int} (hne : (a', m') ≠ (a, m)) (p : WarnAttrReportInfo) (idx : Int)
    (v : UInt32) : Same zone a m db (db.insert a' m' p now idx v) where
  rows j := by
    have hrow : ¬(a' = a ∧ m' = m ∧ slotOf zone 1 now = j) := fun h =>
      hne (Prod.ext h.1 h.2.1)
    simp [slotRows, Db.insert, hrow]
  toDb := by
    have hkey : ¬(a = a' ∧ m = m') := fun h => hne (Prod.ext h.1.symm h.2.symm)
    simp [Db.insert, hkey]

theorem insert_self (p : WarnAttrReportInfo) (v : UInt32) :
    Wrote zone a m now v db (db.insert a m p now (slotOf zone 1 now) v) where
  rows j := by
    by_cases hj : slotOf zone 1 now = j <;> simp [slotRows, Db.insert, hj]
  toDb := by simp [Db.insert]

theorem writeLoop_frame (zone : Nat) (now : UInt32) :
    ∀ ns fail db,
      (writeLoop zone now fail ns db).shm = db.shm ∧
        (writeLoop zone now fail ns db).nodes = db.nodes := by
  intro ns
  induction ns with
  | nil => exact fun _ _ => ⟨rfl, rfl⟩
  | cons n ns ih =>
    intro fail db
    unfold writeLoop
    split
    · exact ih fail db
    dsimp only
    split
    · exact ih fail db
    · split
      · exact ⟨rfl, rfl⟩
      · exact ih _ _
      · exact ih _ _

theorem writeLoop_of_not_mem (zone : Nat) (a m : Int) (now : UInt32) :
    ∀ ns fail db, (a, m) ∉ ns →
      Same zone a m db (writeLoop zone now fail ns db) := by
  intro ns
  induction ns with
  | nil => exact fun _ db _ => .refl zone a m db
  | cons n ns ih =>
    intro fail db hn
    rw [mem_cons, not_or] at hn
    unfold writeLoop
    split
    · exact ih fail db hn.2
    dsimp only
    split
    · exact ih fail db hn.2
    · split
      · exact .refl zone a m db
      · exact (insert_other (Ne.symm hn.1) _ _ _).trans (ih _ _ hn.2)
      · exact (insert_other (Ne.symm hn.1) _ _ _).trans (ih _ _ hn.2)

/-- The pass is to store the pair: there is a value, and none was stored in this
slot. -/
def Due (zone : Nat) (p : WarnAttrReportInfo) (d : ToDb) (now : UInt32) : Prop :=
  valBefore p now (slotOf zone 1 now) ≠ 0 ∧ isStored d 60 now (slotOf zone 1 now) = false

/-- What a part of a pass does for the pair with record `p`: nothing, or its row if
that is due; if `sure`, its row whenever that is due. -/
structure Passes (zone : Nat) (a m : Int) (now : UInt32) (p : WarnAttrReportInfo) (sure : Prop)
    (db db' : Db) : Prop where
  either : Same zone a m db db' ∨ Due zone p (db.toDb a m) now ∧
    Wrote zone a m now (valBefore p now (slotOf zone 1 now)) db db'
  due : sure → Due zone p (db.toDb a m) now →
    Wrote zone a m now (valBefore p now (slotOf zone 1 now)) db db'

theorem Same.passes {p : WarnAttrReportInfo} {sure sure' : Prop} (hs : Same zone a m db db')
    (h : Passes zone a m now p sure' db' db'') (hsure : sure → sure') :
    Passes zone a m now p sure db db'' := by
  obtain ⟨h1, h2⟩ := h
  rw [hs.toDb] at h1 h2
  exact ⟨h1.imp hs.trans fun h => ⟨h.1, hs.trans_wrote h.2⟩, fun hf hdue =>
    hs.trans_wrote (h2 (hsure hf) hdue)⟩

theorem writeLoop_self (zone : Nat) (now : UInt32) {p : WarnAttrReportInfo} (hp : db.shm a m = some p)
    (hst : p.wStaticTime = 1) (ns : List (Int × Int)) (fail : Option Nat) (hn : (a, m) ∉ ns) :
    Passes zone a m now p (fail = none) db (writeLoop zone now fail ((a, m) :: ns) db) := by
  have hsecs : staticSecs p = 60 := by
    unfold staticSecs
    rw [hst]
    rfl
  have hidx : slotOf zone p.wStaticTime.toNat now = slotOf zone 1 now := by
    rw [hst]
    rfl
  have hsame : ∀ fail, Same zone a m db (writeLoop zone now fail ns db) := fun fail =>
    writeLoop_of_not_mem zone a m now ns fail db hn
  have hwrote : ∀ fail, Wrote zone a m now (valBefore p now (slotOf zone 1 now)) db
      (writeLoop zone now fail ns
        (db.insert a m p now (slotOf zone 1 now) (valBefore p now (slotOf zone 1 now)))) :=
    fun fail => (insert_self p _).trans_same (writeLoop_of_not_mem zone a m now ns fail _ hn)
  unfold writeLoop
  rw [hp]
  dsimp only
  rw [hidx, hsecs]
  split
  · rename_i hskip
    refine ⟨.inl (hsame fail), fun _ hdue => ?_⟩
    rcases hskip with h0 | hst
    · exact absurd h0 hdue.1
    · exact absurd hst (by rw [hdue.2]; decide)
  · rename_i hskip
    rw [not_or] at hskip
    have hdue : Due zone p (db.toDb a m) now := ⟨hskip.1, by simpa using hskip.2⟩
    split
    · exact ⟨.inl (.refl zone a m db), fun h => by cases h⟩
    · exact ⟨.inr ⟨hdue, hwrote _⟩, fun h => by cases h⟩
    · exact ⟨.inr ⟨hdue, hwrote _⟩, fun _ _ => hwrote _⟩

/-- What the loop does for the pair: nothing, or its row if that is due; with no
failing insert, its row whenever that is due. -/
theorem writeLoop_pair (zone : Nat) (now : UInt32) {p : WarnAttrReportInfo} (hst : p.wStaticTime = 1) :
    ∀ ns fail db, db.shm a m = some p → ns.Nodup →
      Passes zone a m now p (fail = none ∧ (a, m) ∈ ns) db (writeLoop zone now fail ns db) := by
  intro ns
  induction ns with
  | nil => exact fun _ db _ _ => ⟨.inl (.refl zone a m db), fun h => by cases h.2⟩
  | cons n ns ih =>
    intro fail db hp hnd
    obtain ⟨a', m'⟩ := n
    have hnd := nodup_cons.mp hnd
    by_cases hkey : (a', m') = (a, m)
    · cases hkey
      have h := writeLoop_self zone now hp hst ns fail hnd.1
      exact ⟨h.either, fun hf => h.due hf.1⟩
    · -- another node: the pair is as before when the loop goes on
      have hmem : (a, m) ∈ (a', m') :: ns → (a, m) ∈ ns := fun h =>
        (mem_cons.mp h).resolve_left (fun h => hkey h.symm)
      have hnext : ∀ fail' db1, Same zone a m db db1 → db1.shm = db.shm → (fail = none → fail' = none) →
          Passes zone a m now p (fail = none ∧ (a, m) ∈ (a', m') :: ns) db
            (writeLoop zone now fail' ns db1) := fun fail' db1 hs hshm hf =>
        hs.passes (ih fail' db1 (by rw [hshm]; exact hp) hnd.2) fun h => ⟨hf h.1, hmem h.2⟩
      unfold writeLoop
      split
      · exact hnext fail db (.refl zone a m db) rfl id
      dsimp only
      split
      · exact hnext fail db (.refl zone a m db) rfl id
      · split
        · exact ⟨.inl (.refl zone a m db), fun h => by cases h.1⟩
        · exact hnext _ _ (insert_other hkey _ _ _) rfl (fun h => by cases h)
        · exact hnext _ _ (insert_other hkey _ _ _) rfl id

end Pass

/-! ## The record of the pair -/

section Record

variable {zone : Nat} {ty : DataType} {h : List (Int × UInt32)} {p : WarnAttrReportInfo}
  {now now' : UInt32}

/-- The record of a pair that has been reported today. The value of the slot
before the newest is only known if that slot was reported. -/
structure Today (zone : Nat) (ty : DataType) (h : List (Int × UInt32)) (p : WarnAttrReportInfo)
    (now : UInt32) : Prop where
  day : dayOf zone p.dwLastReportTime = dayOf zone now
  le : p.dwLastReportTime ≤ now
  static : p.wStaticTime = 1
  idx : p.iMinIdx = slotOf zone 1 p.dwLastReportTime
  cur : p.dwCurVal = aggregate ty h p.iMinIdx
  newest : ∀ r ∈ h, r.1 ≤ p.iMinIdx
  reported : slotVals h p.iMinIdx ≠ []
  last : 0 < p.iMinIdx → slotVals h (p.iMinIdx - 1) ≠ [] →
    p.dwLastVal = aggregate ty h (p.iMinIdx - 1)

/-- The record that an earlier day left: its value is what a total goes on from,
and stands in the history of the day as a report before its first slot. -/
structure Old (zone : Nat) (h : List (Int × UInt32)) (p : WarnAttrReportInfo) (now : UInt32) :
    Prop where
  day : dayOf zone p.dwLastReportTime < dayOf zone now
  static : p.wStaticTime = 1
  idx : p.iMinIdx = slotOf zone 1 p.dwLastReportTime
  hist : h = [(-1, p.dwCurVal)]

/-- The history that a record of an earlier day stands for. -/
def carried : Option WarnAttrReportInfo → List (Int × UInt32)
  | none => []
  | some p => [(-1, p.dwCurVal)]

theorem Today.later (hp : Today zone ty h p now) (hd : dayOf zone now = dayOf zone now')
    (hle : now ≤ now') : Today zone ty h p now' :=
  { hp with day := hp.day.trans hd, le := UInt32.le_trans hp.le hle }

theorem Old.later (hp : Old zone h p now) (hd : dayOf zone now = dayOf zone now') :
    Old zone h p now' :=
  { hp with day := hd ▸ hp.day }

theorem mayBeLost_one {last : UInt32} (hb : last.toNat + 120 < 2 ^ 32) :
    mayBeLost now last 1 = decide (last.toNat + 120 < now.toNat) := by
  have h120 : (last + ofInt (1 * 60 * 2)).toNat = last.toNat + 120 := by
    exact Nat.mod_eq_of_lt hb
  rw [← h120]
  exact decide_eq_decide.mpr lt_iff_toNat_lt

/-- Outside the slot of the record every branch of the update starts a new value. -/
theorem addVal_cur {v : UInt32} {i st : Int}
    (hn : mayBeLost now p.dwLastReportTime st = true ∨ p.iMinIdx ≠ i) :
    (p.addVal now v i ty st).dwCurVal = startCur ty p.dwCurVal v := by
  unfold addVal
  by_cases hl : mayBeLost now p.dwLastReportTime st = true
  · rw [if_pos hl]
    rfl
  rw [if_neg hl, if_neg (hn.resolve_left hl)]
  split
  · rfl
  split
  · rfl
  · rfl

theorem Today.of_stamp {q : WarnAttrReportInfo} {v ip : UInt32}
    (hnew : ∀ r ∈ h, r.1 ≤ slotOf zone 1 now)
    (hc : q.dwCurVal = aggregate ty (h ++ [(slotOf zone 1 now, v)]) (slotOf zone 1 now))
    (hl : 0 < slotOf zone 1 now → slotVals h (slotOf zone 1 now - 1) ≠ [] →
      q.dwLastVal = aggregate ty h (slotOf zone 1 now - 1)) :
    Today zone ty (h ++ [(slotOf zone 1 now, v)])
      { q.stamp (slotOf zone 1 now) now ty 1 with dwLastReportIp := ip } now where
  day := rfl
  le := UInt32.le_refl now
  static := rfl
  idx := rfl
  cur := hc
  newest := newest_append hnew (Int.le_refl _)
  reported := by simp [slotVals_append, stamp]
  last h0 hs := by
    have hne : slotOf zone 1 now ≠ slotOf zone 1 now - 1 := by omega
    have hlt : slotOf zone 1 now - 1 < slotOf zone 1 now := by omega
    rw [slotVals_append] at hs
    simp only [stamp, hne, if_false, append_nil] at hs ⊢
    rw [aggregate_append_of_lt hlt]
    exact hl h0 hs

theorem Today.addVal (hp : Today zone ty h p now) (hd : dayOf zone now = dayOf zone now')
    (hle : now ≤ now') (hb : now'.toNat + 120 < 2 ^ 32) (v ip : UInt32) :
    Today zone ty (h ++ [(slotOf zone 1 now', v)])
      { (p.addVal now' v (slotOf zone 1 now') ty 1).stamp (slotOf zone 1 now') now' ty 1 with
        dwLastReportIp := ip } now' := by
  have hday : dayOf zone p.dwLastReportTime = dayOf zone now' := hp.day.trans hd
  have hle' : p.dwLastReportTime ≤ now' := UInt32.le_trans hp.le hle
  have hi : p.iMinIdx ≤ slotOf zone 1 now' := by
    rw [hp.idx]
    exact slotOf_one_mono hday hle'
  have hn := le_iff_toNat_le.mp hle'
  have hnear : slotOf zone 1 now' ≤ p.iMinIdx + 1 →
      ¬ mayBeLost now' p.dwLastReportTime 1 = true := by
    intro hs
    rw [hp.idx] at hs
    have h := toNat_add_zone zone p.dwLastReportTime
    have h' := toNat_add_zone zone now'
    rw [slotOf_one, slotOf_one] at hs
    rw [mayBeLost_one (by omega), decide_eq_true_eq]
    omega
  have hcur : p.iMinIdx ≠ slotOf zone 1 now' →
      (p.addVal now' v (slotOf zone 1 now') ty 1).dwCurVal =
        aggregate ty (h ++ [(slotOf zone 1 now', v)]) (slotOf zone 1 now') := by
    intro hne
    rw [addVal_cur (.inr hne), aggregate_append_new hp.newest hp.reported (by omega), hp.cur]
  refine .of_stamp (fun r hr => Int.le_trans (hp.newest r hr) hi) ?_ fun h0 hs => ?_
  · by_cases heq : p.iMinIdx = slotOf zone 1 now'
    · rw [WarnAttrReportInfo.addVal, if_neg (hnear (by omega)), if_pos heq, ← heq,
        aggregate_append_self hp.newest hp.reported, ← hp.cur]
    · exact hcur heq
  · -- the slot before was reported: it is the record's newest or the one before
    have hlow : slotOf zone 1 now' - 1 ≤ p.iMinIdx := by
      rcases Int.lt_or_le p.iMinIdx (slotOf zone 1 now' - 1) with hlt | hle
      · exact absurd (slotVals_of_lt hp.newest hlt) hs
      · exact hle
    rw [WarnAttrReportInfo.addVal, if_neg (hnear (by omega))]
    by_cases heq : p.iMinIdx = slotOf zone 1 now'
    · rw [if_pos heq]
      rw [← heq] at h0 hs ⊢
      exact hp.last h0 hs
    · have hnext : p.iMinIdx + 1 = slotOf zone 1 now' := by omega
      have hprev : slotOf zone 1 now' - 1 = p.iMinIdx := by omega
      rw [if_neg heq, if_pos hnext, hprev]
      exact hp.cur

/-- The first report of today to a record of an earlier day. -/
theorem Old.addVal (hp : Old zone h p now) (hd : dayOf zone now = dayOf zone now')
    (hb : now'.toNat + 120 < 2 ^ 32) (v ip : UInt32) :
    Today zone ty (h ++ [(slotOf zone 1 now', v)])
      { (p.addVal now' v (slotOf zone 1 now') ty 1).stamp (slotOf zone 1 now') now' ty 1 with
        dwLastReportIp := ip } now' := by
  have h1 := toNat_add_zone zone p.dwLastReportTime
  have h2 := toNat_add_zone zone now'
  have hday := hp.day
  have hnn := slotOf_one_nonneg zone now'
  -- within two minutes the slots of the two days are far apart
  have hne : mayBeLost now' p.dwLastReportTime 1 = true ∨ p.iMinIdx ≠ slotOf zone 1 now' := by
    by_cases hl : p.dwLastReportTime.toNat + 120 < now'.toNat
    · left
      rw [mayBeLost_one (by omega)]
      simpa using hl
    · rw [hp.idx, slotOf_one, slotOf_one]
      omega
  have hnew : ∀ r ∈ h, r.1 ≤ -1 := by
    rw [hp.hist]
    simp
  have hrep : slotVals h (-1) ≠ [] := by
    rw [hp.hist]
    simp [slotVals]
  have hagg : aggregate ty h (-1) = p.dwCurVal := by
    rw [hp.hist]
    simp [aggregate, slotVals]
  refine .of_stamp (fun r hr => Int.le_trans (hnew r hr) (by omega)) ?_ fun h0 hs => ?_
  · rw [addVal_cur hne, aggregate_append_new hnew hrep (by omega), hagg]
  · exact absurd (slotVals_of_lt hnew (by omega)) hs

theorem Today.init (zone : Nat) (ty : DataType) (q : WarnAttrReportInfo) (a m : Int)
    (now v ip : UInt32) :
    Today zone ty ([] ++ [(slotOf zone 1 now, v)])
      { (q.init a m v).stamp (slotOf zone 1 now) now ty 1 with dwLastReportIp := ip } now := by
  refine .of_stamp (by simp) ?_ fun _ hs => absurd rfl hs
  simp [WarnAttrReportInfo.init, aggregate, slotVals]

end Record

end DesPwd.L4.AttrDb
