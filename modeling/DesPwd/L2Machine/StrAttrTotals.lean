import DesPwd.L2Machine.StrAttr

/-!
# The totals of a string attribute on one day

What the nodes of one entry hold after the reports of a day. All entries share
one pool, so a run has calls for other entries too; of these only what the pool
itself needs is asked (`StepOk`). A day starts with a report that finds the
entry empty or of another day. After each report the caller sets
`dwLastReportTime`: without it the next report finds the entry stale.

* `Today.step`: one call takes the strings and values of the entry to those of
  the table in `Totals`, and calls for other entries leave them.
* `str_attr_totals`: up to 28 strings each one has a node with its sum; the next
  one drops 8 nodes with the smallest values and nothing else.
* `str_attr_totals_broken`: two reports of a string of 65 bytes; and 29 strings of
  an entry whose first node is node 0.
-/
namespace DesPwd.L2.StrAttr

open Bytes Links Run Totals List

variable {s s' : Sys} {e e' : Entry} {p p' : Pool} {K : Int × Int} {m : List (Bytes × Int)}

/-- The strings and values of the entry with a key, in the order of its chain. -/
def strTotals (s : Sys) (K : Int × Int) : Option (List (Bytes × Int)) := do
  let e ← s.entries.find? (·.key = K)
  let c ← walk (nextOf s.pool.stInfo) (-1) e.bStrCount e.iReportIdx
  pure (strs s.pool.stInfo c)

/-! ## A day of reports -/

/-- The report of a label, if it is one for `K`. -/
def reportOf (K : Int × Int) : Label → Option (Bytes × Int)
  | .add key r _ _ _ => if key = K then some (r.str, (r.v.toNat : Int)) else none
  | _ => none

def reports (K : Int × Int) (ls : List Label) : List (Bytes × Int) := ls.filterMap (reportOf K)

/-- The last report was stored with its time, at most a day ago. -/
def Recent (K : Int × Int) (now : Nat) (s : Sys) : Prop :=
  ∀ e ∈ s.entries, e.key = K → now ≤ (e.dwLastReportTime + 86400).toNat

/-- The condition of a call within the day. -/
def DayOk (K : Int × Int) (mday : Nat) (s : Sys) (l : Label) : Prop :=
  StepOk s l ∧ match l with
    | .add key r now d _ =>
      key = K → d = mday ∧ Recent K now s ∧ r.str.length ≤ 64 ∧ ∃ i, Free s.pool i
    | .checkClear key now d => key = K → d = mday ∧ Recent K now s
    | .stamp .. => True

/-- The first report of the day: the entry is new, empty or of another day. -/
def Opens (K : Int × Int) (mday : Nat) (s : Sys) (l : Label) : Prop :=
  StepOk s l ∧ match l with
    | .add key r now d room =>
      key = K ∧ d = mday ∧ (s.entries.any (·.key = K) ∨ room) ∧ r.str.length ≤ 64 ∧
        (∃ i, Free s.pool i) ∧
        ∀ e ∈ s.entries, e.key = K → e.bStrCount = 0 ∨ e.stale now mday = true
    | _ => False

/-- The calls of one day of the entry, with any others between them. -/
def Day (K : Int × Int) (mday : Nat) : List Label → Sys → Prop
  | [], _ => False
  | l :: ls, s => Opens K mday s l ∧ ∀ s', step s l = some s' → Meets step (DayOk K mday) ls s'

variable {r : Report} {mday now : Nat} {l : Label}

/-! ## The entry in the table -/

/-- `e` is the entry of `K`, and `m` what its chain holds. -/
def Holds (s : Sys) (K : Int × Int) (e : Entry) (m : List (Bytes × Int)) : Prop :=
  ∃ cs c, Chains s cs ∧ cs.find? (·.1.key = K) = some (e, c) ∧ strs s.pool.stInfo c = m

theorem Holds.strTotals (h : Holds s K e m) : strTotals s K = some m := by
  obtain ⟨cs, c, hcs, hfind, rfl⟩ := h
  have hown := hcs.owns _ (mem_of_find?_eq_some hfind)
  have hentry : s.entries.find? (·.key = K) = some e := by
    rw [hcs.entries, find?_map]
    exact congrArg (Option.map Prod.fst) hfind
  have hstop : (-1 : Int) ∉ c := fun hi => absurd (hown.inRange _ hi) (by decide)
  have hwalk := walk_eq_some hown.linked hstop hown.count.le
  simp only [StrAttr.strTotals, hentry, Option.bind_eq_bind, Option.bind_some, hwalk, Option.pure_def]

theorem Holds.key_eq (h : Holds s K e m) : e.key = K := by
  obtain ⟨cs, c, -, hfind, -⟩ := h
  simpa using find?_some hfind

theorem Holds.mem (h : Holds s K e m) : e ∈ s.entries := by
  obtain ⟨cs, c, hcs, hfind, -⟩ := h
  rw [hcs.entries]
  exact mem_map_of_mem (mem_of_find?_eq_some hfind)

theorem holds_replace {cs1 cs2 : List (Entry × List Int)} {c c' : List Int}
    (h : Chains s (cs1 ++ (e, c) :: cs2)) (hall : ∀ x ∈ cs1, x.1.key ≠ K)
    (hown : Owns p' e' c') (hch : Change s.pool c p' c') (hk : e'.key = K) :
    Holds ⟨cs1.map Prod.fst ++ e' :: cs2.map Prod.fst, p'⟩ K e' (strs p'.stInfo c') := by
  refine ⟨_, c', h.replace hown hch, ?_, rfl⟩
  have hnone : cs1.find? (·.1.key = K) = none := by simpa using hall
  rw [find?_append, hnone, Option.none_or, find?_cons_of_pos (by simpa using hk)]

theorem Holds.withEntry_self {f : Entry → Pool → Option (Entry × Pool)}
    {Q : Entry → List (Bytes × Int) → Prop} (h : Holds s K e m)
    (hf : ∀ c, Owns s.pool e c → strs s.pool.stInfo c = m →
      ∃ e' p' c', f e s.pool = some (e', p') ∧ Owns p' e' c' ∧ Change s.pool c p' c' ∧
        Q e' (strs p'.stInfo c'))
    (hkey : ∀ {e p e' p'}, f e p = some (e', p') → e'.key = e.key) :
    ∃ s' e' m', (withEntry K f s.entries s.pool).map (fun r => Sys.mk r.1 r.2) = some s' ∧
      Holds s' K e' m' ∧ Q e' m' := by
  obtain ⟨cs, c, hcs, hfind, hm⟩ := h
  have hmem := mem_of_find?_eq_some hfind
  have hk : e.key = K := by simpa using find?_some hfind
  rcases hcs.split K f with ⟨hall, -⟩ | ⟨cs1, e1, c1, cs2, rfl, hall, hk1, hw⟩
  · exact absurd hk (hall _ hmem)
  have hnone : cs1.find? (·.1.key = K) = none := by simpa using hall
  rw [find?_append, hnone, find?_cons_of_pos (by simpa using hk1)] at hfind
  cases hfind
  obtain ⟨e', p', c', hfe, hown', hch, hq⟩ := hf c (hcs.owns _ hmem) hm
  refine ⟨_, e', _, ?_, holds_replace hcs hall hown' hch ((hkey hfe).trans hk), hq⟩
  rw [hw, hfe]
  rfl

/-! ## One step -/

theorem Holds.step_ne (h : Holds s K e m) (hok : StepOk s l) (hne : l.key ≠ K) :
    ∃ s', step s l = some s' ∧ Holds s' K e m := by
  obtain ⟨cs, c, hcs, hfind, rfl⟩ := h
  obtain ⟨s', hs, cs', hcs', hkeep⟩ := hcs.step_inv hok
  obtain ⟨hfind', hstrs⟩ := hkeep K hne.symm _ hfind
  exact ⟨s', hs, cs', c, hcs', hfind', hstrs⟩

/-- Within the day, the entry of `K` holds `m`. -/
def Today (K : Int × Int) (mday : Nat) (s : Sys) (m : List (Bytes × Int)) : Prop :=
  ∃ e, Holds s K e m ∧ e.bLastReportDayOfMonth = mday ∧ (keys m).Nodup

/-- The table with what a label reports. -/
def note (K : Int × Int) (m : List (Bytes × Int)) (l : Label) : List (Bytes × Int) :=
  match reportOf K l with
  | some x => add (selectCount + maxStrCount) selectCount m x
  | none => m

theorem stale_eq_false (hday : e.bLastReportDayOfMonth = mday)
    (hnow : now ≤ (e.dwLastReportTime + 86400).toNat) : e.stale now mday = false := by
  rw [Entry.stale, hday, bne_self_eq_false, Bool.or_false, decide_eq_false_iff_not]
  exact not_lt.2 hnow

theorem Today.step (h : Today K mday s m) (hok : DayOk K mday s l) :
    ∃ s', step s l = some s' ∧ Today K mday s' (note K m l) := by
  obtain ⟨e, hold, hday, hnd⟩ := h
  obtain ⟨hstep, hok⟩ := hok
  by_cases hkey : l.key = K
  · cases l with
    | add key r now d room =>
      obtain rfl : key = K := hkey
      obtain ⟨rfl, hrec, hfit, hfree⟩ := hok rfl
      obtain ⟨hv, hmax, hcount⟩ := hstep
      have hstale := stale_eq_false hday (hrec e hold.mem hold.key_eq)
      have hany : s.entries.any (·.key = key) := by
        simpa using ⟨e, hold.mem, hold.key_eq⟩
      obtain ⟨cs, -, hcs, -⟩ := id hold
      have hcall : ∀ c, Owns s.pool e c → strs s.pool.stInfo c = m → ∃ e' p' c',
          addStrAttrReport r now d e s.pool = some (e', p') ∧ Owns p' e' c' ∧
            Change s.pool c p' c' ∧ strs p'.stInfo c' = note key m (.add key r now d room) ∧
            e'.bLastReportDayOfMonth = d := by
        rintro c hown rfl
        obtain ⟨e', p', c', hrun, hown', hch, hcounts, -⟩ :=
          addStrAttrReport_spec now d hown hcs.write hv hmax (hcount e hold.mem hold.key_eq)
        simp only [note, reportOf, if_pos]
        exact ⟨e', p', c', hrun, hown', hch, hcounts hstale hfit hfree hnd⟩
      obtain ⟨s', e', m', hrun, hold', rfl, hday'⟩ := hold.withEntry_self
        (Q := fun e' m' => m' = note key m (.add key r now d room) ∧ e'.bLastReportDayOfMonth = d)
        hcall addStrAttrReport_key
      refine ⟨s', ?_, e', hold', hday', ?_⟩
      · rw [StrAttr.step, if_pos hany]
        exact hrun
      · simp only [note, reportOf, if_pos]
        exact nodup_add hnd _
    | checkClear key now d =>
      obtain rfl : key = K := hkey
      obtain ⟨rfl, hrec⟩ := hok rfl
      have hstale := stale_eq_false hday (hrec e hold.mem hold.key_eq)
      obtain ⟨s', e', m', hrun, hold', rfl, rfl⟩ := hold.withEntry_self
        (f := checkClear now d) (Q := fun e' m' => e' = e ∧ m' = m)
        (fun c hown hm => ⟨e, s.pool, c, by simp [checkClear, hstale], hown, .refl _ c, rfl, hm⟩)
        checkClear_key
      exact ⟨s', hrun, e', hold', hday, hnd⟩
    | stamp key t =>
      obtain rfl : key = K := hkey
      obtain ⟨s', e', m', hrun, hold', hday', rfl⟩ := hold.withEntry_self
        (f := fun e p => some ({ e with dwLastReportTime := t }, p))
        (Q := fun e' m' => e'.bLastReportDayOfMonth = mday ∧ m' = m)
        (fun c hown hm => ⟨_, _, c, rfl, { hown with }, .refl _ c, hday, hm⟩) (stamp_key t)
      exact ⟨s', hrun, e', hold', hday', hnd⟩
  · obtain ⟨s', hrun, hold'⟩ := hold.step_ne hstep hkey
    have hnote : note K m l = m := by
      unfold note
      have hnone : reportOf K l = none := by
        cases l with
        | add key r now d room => exact if_neg hkey
        | checkClear key now d => rfl
        | stamp key t => rfl
      rw [hnone]
    rw [hnote]
    exact ⟨s', hrun, e, hold', hday, hnd⟩

theorem note_nil {room : Bool} :
    note K [] (.add K r now mday room) = [(r.str, (r.v.toNat : Int))] := by
  simp only [note, reportOf]
  rfl

/-- The first report of a day is all that the entry holds. -/
theorem Opens.step {cs : List (Entry × List Int)} (hcs : Chains s cs) (hok : Opens K mday s l) :
    ∃ s', step s l = some s' ∧ Today K mday s' (note K [] l) := by
  obtain ⟨hstep, hok⟩ := hok
  cases l with
  | checkClear key now d => exact hok.elim
  | stamp key t => exact hok.elim
  | add key r now d room =>
    obtain ⟨rfl, rfl, hroom, hfit, hfree, hempty⟩ := hok
    obtain ⟨hv, hmax, hcount⟩ := hstep
    rw [note_nil, StrAttr.step]
    split
    case isTrue hany =>
      rcases hcs.split key (addStrAttrReport r now d) with
        ⟨hall, -⟩ | ⟨cs1, e, c, cs2, rfl, hall, hk, hw⟩
      · obtain ⟨e, he, hk⟩ := any_eq_true.1 hany
        rw [hcs.entries] at he
        obtain ⟨x, hx, rfl⟩ := mem_map.1 he
        exact absurd (by simpa using hk) (hall x hx)
      · have hmem : (e, c) ∈ cs1 ++ (e, c) :: cs2 := mem_append_right _ mem_cons_self
        have he : e ∈ s.entries := hcs.entries ▸ mem_map_of_mem hmem
        have hown := hcs.owns _ hmem
        obtain ⟨e', p', c', hrun, hown', hch, hfresh, hstale⟩ :=
          addStrAttrReport_spec now d hown hcs.write hv hmax (hcount e he hk)
        have hstrs : strs p'.stInfo c' = [(r.str, (r.v.toNat : Int))] ∧
            e'.bLastReportDayOfMonth = d := by
          cases hst : e.stale now d with
          | true => exact hstale hst hfit hfree
          | false =>
            have hc0 : e.bStrCount = 0 := (hempty e he hk).resolve_right (by simp [hst])
            have hnil : c = [] := length_eq_zero_iff.1 (hown.count.trans hc0)
            subst hnil
            exact hfresh hst hfit hfree nodup_nil
        refine ⟨_, by rw [hw, hrun]; rfl, e', ?_, hstrs.2, nodup_singleton _⟩
        rw [← hstrs.1]
        exact holds_replace hcs hall hown' hch ((addStrAttrReport_key hrun).trans hk)
    case isFalse hno =>
      have hroom : room = true := hroom.resolve_left hno
      obtain ⟨e', p', c', hrun, hown, hch, hcounts⟩ := count_fresh d hcs.write hv hmax key
      have hnew := hcs.addEntry (e := .fresh key r.bAttrDataType) rfl rfl
      have hall : ∀ x ∈ cs, x.1.key ≠ key := by
        intro x hx hk
        refine hno (any_eq_true.2 ⟨x.1, ?_, by simpa using hk⟩)
        rw [hcs.entries]
        exact mem_map_of_mem hx
      obtain ⟨hstrs, hday⟩ := hcounts hfit hfree nodup_nil
      refine ⟨⟨s.entries ++ [e'], p'⟩, by rw [if_pos hroom, hrun]; rfl, e', ?_, hday,
        nodup_singleton _⟩
      have hold := holds_replace hnew hall hown hch (count_key hrun)
      rw [hstrs] at hold
      rw [hcs.entries]
      exact hold

/-! ## The day -/

theorem foldl_note (ls : List Label) (m : List (Bytes × Int)) :
    ls.foldl (note K) m = (reports K ls).foldl (add (selectCount + maxStrCount) selectCount) m := by
  rw [reports, foldl_filterMap]
  congr 1
  funext m l
  unfold note
  cases reportOf K l <;> rfl

/-- After the calls of a day the entry holds the totals of its reports. -/
theorem Day.run {day : List Label} {cs : List (Entry × List Int)} (hcs : Chains s cs)
    (hday : Day K mday day s) :
    ∃ s', run step day s = some s' ∧
      Today K mday s' (totals (selectCount + maxStrCount) selectCount (reports K day)) := by
  cases day with
  | nil => exact hday.elim
  | cons l ls =>
    obtain ⟨s1, hs1, h1⟩ := hday.1.step hcs
    obtain ⟨s', hrun, h'⟩ := run_fold
      (fun s l m (h : Today K mday s m) hok => Today.step (l := l) h hok) h1 (hday.2 s1 hs1)
    refine ⟨s', by rw [Run.run, hs1]; exact hrun, ?_⟩
    rw [totals, ← foldl_note]
    exact h'

/-- From any state that calls reach in which values stay below 2^31 and no chain with node 0
is thinned out: after the reports of one day of an entry, with calls for others between them,
each of up to 28 strings has one node with the sum of its values. The next string drops 8
nodes with the smallest values; the others keep theirs. -/
theorem str_attr_totals (K : Int × Int) (mday : Nat) (pre day : List Label) (s0 : Sys)
    (hpre : Meets step StepOk pre Sys.init) (hs0 : run step pre Sys.init = some s0)
    (hday : Day K mday day s0) :
    ∃ s m, run step day s0 = some s ∧ strTotals s K = some m ∧
      (distinct (reports K day) ≤ selectCount + maxStrCount → Sums (reports K day) m) ∧
      ∀ r now room, DayOk K mday s (.add K r now mday room) →
        distinct (reports K day) = selectCount + maxStrCount → r.str ∉ keys (reports K day) →
        ∃ s' dropped kept, step s (.add K r now mday room) = some s' ∧
          strTotals s' K = some (kept ++ [(r.str, (r.v.toNat : Int))]) ∧
          dropped.length = selectCount ∧ (dropped ++ kept).Perm m ∧
          ∀ d ∈ dropped, ∀ x ∈ kept, d.2 ≤ x.2 := by
  obtain ⟨s0', hs0', cs, hcs⟩ := run_chains hpre
  rw [hs0] at hs0'
  cases hs0'
  obtain ⟨s, hrun, htoday⟩ := Day.run hcs hday
  obtain ⟨e, hold, -⟩ := id htoday
  refine ⟨s, _, hrun, hold.strTotals, sums_totals, fun r now room hok hfull hnew => ?_⟩
  obtain ⟨s', hs', e', hold', -⟩ := htoday.step hok
  obtain ⟨dropped, kept, hadd, hlen, hperm, hle⟩ := add_full (n := selectCount)
    (x := (r.str, (r.v.toNat : Int))) (sums_totals hfull.le) hfull hnew
  refine ⟨s', dropped, kept, hs', ?_, hlen, hperm, hle⟩
  have hm := hold'.strTotals
  simp only [note, reportOf, if_pos] at hm
  rw [hm, hadd]

/-- Attribute 1 of machine 1 after a report of 5 for one string and its time. -/
def oneString : Sys :=
  ⟨[⟨1, 1, 0, 1000, 1, 0, 1⟩], ⟨1, 1, Function.update (fun _ => ⟨[], 0, 0⟩) 0 ⟨[97], 5, -1⟩⟩⟩

theorem str_attr_totals_two :
    ∃ s m, run step [report [97] 5, .stamp (1, 1) 1000, report [98] 7] Sys.init = some s ∧
      strTotals s (1, 1) = some m ∧ Sums [([97], (5 : Int)), ([98], 7)] m := by
  have hnew : Opens (1, 1) 1 Sys.init (report [97] 5) :=
    ⟨⟨by decide, by decide, nofun⟩, rfl, rfl, .inr rfl, by decide, ⟨0, by decide, by decide⟩, nofun⟩
  have hrest : Meets step (DayOk (1, 1) 1) [report [98] 7] oneString := by
    refine ⟨⟨⟨by decide, by decide, fun e he _ _ => ⟨?_, ?_⟩⟩,
      fun _ => ⟨rfl, ?_, by decide, 1, by decide, by decide⟩⟩, fun _ _ => trivial⟩
    · rw [mem_singleton.1 he]
      exact fun i hi => nomatch hi
    · rw [mem_singleton.1 he]
      exact fun _ _ _ hfull => absurd hfull (by decide)
    · intro e he _
      rw [mem_singleton.1 he]
      decide
  obtain ⟨s, m, hrun, hm, hsums, -⟩ := str_attr_totals (1, 1) 1 []
    [report [97] 5, .stamp (1, 1) 1000, report [98] 7] Sys.init trivial rfl
    ⟨hnew, fun s' hs' => by
      cases hs'
      exact ⟨⟨trivial, trivial⟩, fun s' hs' => by
        cases hs'
        exact hrest⟩⟩
  exact ⟨s, m, hrun, hm, hsums (by decide)⟩

/-- A string of 65 bytes is compared in full and stored cut: its second report
does not find the node of the first. And of 29 strings of one entry the last one
finds no node to keep when the chain starts with node 0. -/
theorem str_attr_totals_broken : (run step [report (List.replicate 65 97) 1, .stamp (1, 1) 1000,
        report (List.replicate 65 97) 1] Sys.init).bind (strTotals · (1, 1)) =
      some [(List.replicate 64 97, 1), (List.replicate 64 97, 1)] ∧
    ((run step ((List.range 28).flatMap fun k =>
        [report [UInt8.ofNat k + 1] 1, .stamp (1, 1) 1000]) Sys.init).bind
      (strTotals · (1, 1))).map List.length = some 28 ∧
    (run step ((List.range 29).flatMap fun k =>
      [report [UInt8.ofNat k + 1] 1, .stamp (1, 1) 1000]) Sys.init).isNone := by
  decide +kernel

end DesPwd.L2.StrAttr
