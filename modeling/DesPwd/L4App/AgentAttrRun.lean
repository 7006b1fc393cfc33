import DesPwd.L4App.AgentAttr

/-!
# Runs of reports and batches of numeric attributes

Every report and every `ReadAttr` is a step; `Sys` has the shared memory, the
batches taken so far and the `MtReport_Attr_Add` calls that returned 0.

* `Store.put_written`, `Store.read_moves`: what a report and a batch do to the
  entries.
* `attr_values_accounted`: with adds only, nothing of a value is lost or counted
  twice.
* `attr_set_reported`: the value of a set is what is reported, when the attribute
  is stored nowhere behind the table the set writes.
* `attr_set_added_up`: a set that is reported together with an older value.
-/
namespace DesPwd.L4.AgentAttr

open L2.SharedHash BinSearch Tally Run List Option Store
open AttrNode (iAttrID iCurValue)
open Cells (vals)

/-! ## One report -/

def idsOf (xs : List AttrNode) : List Int32 := xs.map iAttrID

/-- The values of attribute `id`. -/
def valuesFor (id : Int32) (xs : List AttrNode) : List Int32 :=
  valuesOf iAttrID iCurValue id xs

/-- The sum of the values of attribute `id`. -/
def sumFor (id : Int32) (xs : List AttrNode) : Int := sumOf iAttrID iCurValue id xs

/-- The entry of `attr` has its value updated, or there was none and it is
added. -/
inductive Written (upd : Int32 → Int32) (attr iValue : Int32) (xs : List AttrNode) :
    List AttrNode → Prop
  | found (l1 : List AttrNode) (e : AttrNode) (l2 : List AttrNode) : xs = l1 ++ e :: l2 →
      e.iAttrID = attr → Written upd attr iValue xs (l1 ++ e.setValue (upd e.iCurValue) :: l2)
  | new (d : AttrNode) : attr ∉ idsOf xs → d.iAttrID = attr → d.iCurValue = iValue →
      Written upd attr iValue xs (xs ++ [d])

theorem forall_mem_replace {α : Type} {P : α → Prop} {l1 l2 : List α} {x y : α}
    (h : ∀ z ∈ l1 ++ x :: l2, P z) (hy : P y) : ∀ z ∈ l1 ++ y :: l2, P z := by
  rw [forall_mem_append, forall_mem_cons] at h ⊢
  exact ⟨h.1, hy, h.2.2⟩

theorem valuesFor_eq_nil {id : Int32} {xs : List AttrNode} :
    valuesFor id xs = [] ↔ id ∉ idsOf xs := by
  simp [valuesFor, valuesOf, idsOf]

theorem valuesFor_append {id : Int32} {xs ys : List AttrNode} :
    valuesFor id (xs ++ ys) = valuesFor id xs ++ valuesFor id ys := valuesOf_append

namespace Written

variable {upd : Int32 → Int32} {attr iValue id : Int32} {xs ys : List AttrNode}

section

variable (h : Written upd attr iValue xs ys)
include h

theorem ids_perm : idsOf ys = idsOf xs ∨ attr ∉ idsOf xs ∧ idsOf ys = idsOf xs ++ [attr] := by
  cases h with
  | found l1 e l2 hxs he => subst hxs; simp [idsOf]
  | new d hno hd hval => right; exact ⟨hno, by simp [idsOf, hd]⟩

theorem nodup (hnd : (idsOf xs).Nodup) : (idsOf ys).Nodup := by
  rcases h.ids_perm with he | ⟨hno, he⟩
  · rw [he]
    exact hnd
  · rw [he]
    exact hnd.append (nodup_singleton _) (by simpa using hno)

theorem pos (hattr : 0 < attr) (hpos : ∀ id ∈ idsOf xs, 0 < id) : ∀ id ∈ idsOf ys, 0 < id := by
  rcases h.ids_perm with he | ⟨-, he⟩
  · rw [he]
    exact hpos
  · rw [he]
    exact forall_mem_append.mpr ⟨hpos, forall_mem_singleton.mpr hattr⟩

end

theorem added (h : Written (fun v => v + iValue) attr iValue xs ys) :
    Added iAttrID iCurValue attr iValue xs ys := by
  cases h with
  | found l1 e l2 hxs he => exact .merge l1 e _ l2 hxs he he rfl
  | new d hno hd hval => exact .new d hd hval (perm_append_singleton d xs)

theorem valuesFor_ne (h : Written upd attr iValue xs ys) (hne : id ≠ attr) :
    valuesFor id ys = valuesFor id xs := by
  unfold valuesFor
  cases h with
  | found l1 e l2 hxs he =>
    subst hxs he
    simp [valuesOf_cons, Ne.symm hne]
  | new d hno hd hval =>
    subst hd
    simp [valuesOf_cons, Ne.symm hne]

theorem valuesFor_new (h : Written upd attr iValue xs ys) (hno : attr ∉ idsOf xs) :
    valuesFor attr ys = [iValue] := by
  cases h with
  | found l1 e l2 hxs he =>
    subst hxs he
    simp [idsOf] at hno
  | new d _ hd hval =>
    rw [valuesFor_append, valuesFor_eq_nil.mpr hno, valuesFor, valuesOf_cons, if_pos hd, hval]
    rfl

theorem valuesFor_set (h : Written (fun _ => iValue) attr iValue xs ys) (hnd : (idsOf xs).Nodup) :
    valuesFor attr ys = [iValue] := by
  by_cases hno : attr ∈ idsOf xs
  · cases h with
    | found l1 e l2 hxs he =>
      subst hxs he
      have hperm : (idsOf (l1 ++ e :: l2)).Perm (e.iAttrID :: (idsOf l1 ++ idsOf l2)) := by
        simp only [idsOf, map_append]
        exact perm_middle
      have hout := (nodup_cons.mp (hperm.nodup_iff.mp hnd)).1
      rw [mem_append, not_or, ← valuesFor_eq_nil, ← valuesFor_eq_nil] at hout
      rw [valuesFor_append, hout.1, valuesFor, valuesOf_cons]
      exact (if_pos rfl).trans (congrArg _ hout.2)
    | new d hno' hd hval => exact absurd hno hno'
  · exact h.valuesFor_new hno

end Written

/-! ## Cells -/

/-- Every cell is in a slot of its attribute, and no two have one attribute. -/
structure CellsOk (c : Cells AttrNode) : Prop where
  nodup : c.idx.Nodup
  placed : ∀ p ∈ c, p.1 ∈ slotsOf p.2.iAttrID
  ids : (idsOf c.vals).Nodup
  pos : ∀ id ∈ idsOf c.vals, 0 < id

section Cell

variable {upd : Int32 → Int32} {attr iValue : Int32} {c c' : Cells AttrNode}

theorem cmp_stRecord {d : AttrNode} :
    (mtreportAttrCmp (stRecord attr) d == 0) = true ↔ d.iAttrID = attr := by
  unfold mtreportAttrCmp stRecord
  by_cases h : attr = d.iAttrID <;> simp [h, eq_comm]

/-- An attribute that is not found in its slots is not in the table. -/
theorem CellsOk.not_mem (h : CellsOk c) (hs : (searchCells attr c).2 = false) :
    attr ∉ idsOf c.vals := by
  intro hmem
  simp only [idsOf, vals, List.mem_map] at hmem
  obtain ⟨d, ⟨p, hp, rfl⟩, hd⟩ := hmem
  have hslot : p.1 ∈ slotsOf attr := hd ▸ h.placed p hp
  have hno := Cells.search_not_found hs hslot (Cells.lookup_of_mem hp h.nodup)
  rw [cmp_stRecord.mpr hd] at hno
  cases hno

theorem CellsOk.suffix (h : CellsOk c) (hs : c' <:+ c) : CellsOk c' where
  nodup := h.nodup.sublist (hs.sublist.map _)
  placed p hp := h.placed p (hs.subset hp)
  ids := h.ids.sublist ((hs.sublist.map _).map _)
  pos id hid := h.pos id (((hs.sublist.map _).map _).subset hid)

theorem putCells_written (h : CellsOk c) (hattr : 0 < attr)
    (hp : putCells upd attr iValue c = some c') :
    CellsOk c' ∧ Written upd attr iValue c.vals c'.vals := by
  unfold putCells at hp
  split at hp
  · rename_i i hs
    obtain ⟨d, hl, hkey⟩ := Cells.search_found hs
    have hd := cmp_stRecord.mp hkey
    obtain ⟨c1, c2, hc, -, hset⟩ := Cells.lookup_split hl h.nodup
    rw [hl, map_some, Option.some.injEq] at hp
    subst hp
    rw [hset]
    have hw : Written upd attr iValue c.vals
        (vals (c1 ++ (i, d.setValue (upd d.iCurValue)) :: c2)) := by
      rw [Cells.vals_middle]
      exact .found _ d _ (hc ▸ Cells.vals_middle ..) hd
    obtain ⟨hnd, hplaced, hids, hpos⟩ := h
    refine ⟨⟨?_, ?_, hw.nodup hids, hw.pos hattr hpos⟩, hw⟩
    · rw [hc] at hnd
      simpa [Cells.idx] using hnd
    · rw [hc] at hplaced
      exact forall_mem_replace hplaced (hplaced (i, d) (by simp))
  · rename_i i hs
    obtain ⟨hmem, hl⟩ := Cells.search_free hs
    cases hp
    have hno : attr ∉ idsOf c.vals := h.not_mem (by rw [hs])
    have hw : Written upd attr iValue c.vals (vals (c ++ [(i, ⟨1, attr, iValue⟩)])) := by
      rw [Cells.vals_middle]
      exact .new _ hno rfl rfl
    refine ⟨⟨?_, fun p hp => ?_, hw.nodup h.ids, hw.pos hattr h.pos⟩, hw⟩
    · have hout := Cells.lookup_eq_none_iff.mp hl
      have : Cells.idx (c ++ [(i, ⟨1, attr, iValue⟩)]) = c.idx ++ [i] := by simp [Cells.idx]
      rw [this]
      exact h.nodup.append (nodup_singleton _) (by simpa using hout)
    · exact forall_mem_append.mpr ⟨h.placed, forall_mem_singleton.mpr hmem⟩ p hp
  · cases hp

theorem putCells_none (h : CellsOk c) (hp : putCells upd attr iValue c = none) :
    attr ∉ idsOf c.vals ∧ (searchCells attr c).1 = none := by
  unfold putCells at hp
  split at hp
  · rename_i i hs
    obtain ⟨d, hl, -⟩ := Cells.search_found hs
    rw [hl] at hp
    cases hp
  · cases hp
  · rename_i b hs
    cases b with
    | true =>
      unfold searchCells Cells.search at hs
      split at hs
      · cases (Prod.mk.inj hs).1
      · cases (Prod.mk.inj hs).2
    | false => exact ⟨h.not_mem (by rw [hs]), by rw [hs]⟩

theorem putCells_some_search (hp : putCells upd attr iValue c = some c') :
    (searchCells attr c).1.isSome = true := by
  unfold putCells at hp
  split at hp
  · rename_i i hs; rw [hs]; rfl
  · rename_i i hs; rw [hs]; rfl
  · cases hp

end Cell

/-! ## The store -/

/-- The elements behind the first one that `takes`. -/
def after {T : Type} (takes : T → Bool) : List T → List T
  | [] => []
  | t :: ts => if takes t then ts else after takes ts

/-- A table of cells in which a report of `attr` finds a node to write. -/
def takesCells (attr : Int32) (c : Cells AttrNode) : Bool := (searchCells attr c).1.isSome

variable {iValue : Int32} {pid : Nat}

/-- The tables before the one that takes the report, that table, and those
behind it. -/
theorem putTables_cases {upd : Int32 → Int32} {attr : Int32} :
    ∀ {cs cs'}, (∀ c ∈ cs, CellsOk c) →
      putTables upd attr iValue cs = some cs' →
      ∃ p c c', cs = p ++ c :: after (takesCells attr) cs ∧
        cs' = p ++ c' :: after (takesCells attr) cs ∧ putCells upd attr iValue c = some c' ∧
        attr ∉ idsOf (p.flatMap vals) := by
  intro cs
  induction cs with
  | nil => intro cs' _ h; cases h
  | cons c cs ih =>
    intro cs' hok h
    obtain ⟨hc, hcs⟩ := forall_mem_cons.mp hok
    unfold putTables at h
    split at h
    · rename_i c' hp
      cases h
      have htakes : takesCells attr c = true := putCells_some_search hp
      rw [after, if_pos htakes]
      exact ⟨[], c, c', rfl, rfl, hp, by simp [idsOf]⟩
    · rename_i hp
      obtain ⟨hno, hsearch⟩ := putCells_none hc hp
      obtain ⟨cs'', htables, rfl⟩ := map_eq_some_iff.mp h
      obtain ⟨p, c0, c', hsplit, hsplit', hp', hnop⟩ := ih hcs htables
      have htakes : ¬ takesCells attr c = true := by simp [takesCells, hsearch]
      rw [after, if_neg htakes]
      refine ⟨c :: p, c0, c', by rw [cons_append, ← hsplit], by rw [cons_append, ← hsplit'],
        hp', ?_⟩
      simp only [idsOf, flatMap_cons, map_append, mem_append, not_or] at hno ⊢
      exact ⟨hno, hnop⟩

theorem putTables_none {upd : Int32 → Int32} {attr : Int32} :
    ∀ {cs}, (∀ c ∈ cs, CellsOk c) → putTables upd attr iValue cs = none →
      attr ∉ idsOf (cs.flatMap vals) := by
  intro cs
  induction cs with
  | nil => simp [idsOf]
  | cons c cs ih =>
    intro hok h
    obtain ⟨hc, hcs⟩ := forall_mem_cons.mp hok
    unfold putTables at h
    split at h
    · cases h
    rename_i hp
    have hno := (putCells_none hc hp).1
    have hnos := ih hcs (map_eq_none_iff.mp h)
    simp only [idsOf, flatMap_cons, map_append, mem_append, not_or] at hno ⊢
    exact ⟨hno, hnos⟩

theorem findIdx?_eq_none {attr : Int32} {l : List AttrNode} :
    l.findIdx? (fun e => e.iAttrID = attr) = none ↔ attr ∉ idsOf l := by
  simp [findIdx?_eq_none_iff, idsOf]

theorem putSpec_written {attr : Int32} {l l' : List AttrNode} (h : putSpec attr iValue l = some l') :
    Written (fun v => v + iValue) attr iValue l l' := by
  unfold putSpec at h
  split at h
  · rename_i i hi
    cases h
    obtain ⟨hlt, he, -⟩ := findIdx?_eq_some_iff_getElem.mp hi
    have hsplit : l = l.take i ++ l[i] :: l.drop (i + 1) := by
      rw [getElem_cons_drop, take_append_drop]
    rw [modify_eq_take_cons_drop hlt]
    exact .found _ _ _ hsplit (by simpa using he)
  · rename_i hi
    split at h
    · cases h
    cases h
    exact .new _ (findIdx?_eq_none.mp hi) rfl rfl

/-- Attributes are positive, once per table and once in the special list. -/
structure Store.Ok (a : Store) : Prop where
  cells : ∀ c ∈ a.tables, CellsOk c
  ids : (idsOf a.spec).Nodup
  pos : ∀ id ∈ idsOf a.spec, 0 < id

/-- `attr` is not stored behind the table that takes a report of it, nor in the
special list. -/
def Store.SetClean (attr : Int32) (a : Store) : Prop :=
  attr ∉ idsOf ((after (takesCells attr) a.tables).flatMap vals ++ a.spec)

namespace Store

variable {upd : Int32 → Int32} {attr iValue id : Int32} {a a' : Store}

theorem Ok.init : Ok init where
  cells c hc := by
    rw [eq_of_mem_replicate hc]
    exact ⟨nodup_nil, by simp, nodup_nil, by simp [idsOf, vals]⟩
  ids := nodup_nil
  pos := by simp [Store.init, idsOf]

/-- A report writes one table, or the special list when no table takes it. -/
theorem put_written (h : Ok a) (hattr : 0 < attr) (hp : a.put upd attr iValue = some a') :
    Ok a' ∧ ∃ p xs ys q, a.entries = p ++ (xs ++ q) ∧ a'.entries = p ++ (ys ++ q) ∧
      attr ∉ idsOf p ∧ (idsOf xs).Nodup ∧
      ((Written upd attr iValue xs ys ∧
          q = (after (takesCells attr) a.tables).flatMap vals ++ a.spec) ∨
        (Written (fun v => v + iValue) attr iValue xs ys ∧ xs = a.spec ∧ q = [])) := by
  unfold put at hp
  split at hp
  · rename_i cs' ht
    cases hp
    obtain ⟨p, c, c', hcs, hcs', hc, hno⟩ := putTables_cases h.cells ht
    have hok : CellsOk c := h.cells c (by rw [hcs]; simp)
    obtain ⟨hok', hw⟩ := putCells_written hok hattr hc
    refine ⟨⟨?_, h.ids, h.pos⟩, p.flatMap vals, c.vals, c'.vals, _, ?_, ?_, hno,
      hok.ids, .inl ⟨hw, rfl⟩⟩
    · rw [hcs']
      exact forall_mem_replace (hcs ▸ h.cells) hok'
    · unfold entries
      conv => lhs; rw [hcs]
      simp
    · unfold entries
      rw [hcs']
      simp
  · rename_i ht
    obtain ⟨l, hl, rfl⟩ := map_eq_some_iff.mp hp
    have hw := putSpec_written hl
    refine ⟨⟨h.cells, hw.nodup h.ids, hw.pos hattr h.pos⟩, a.tables.flatMap vals, a.spec, l,
      [], ?_, ?_, putTables_none h.cells ht, h.ids, .inr ⟨hw, rfl, rfl⟩⟩
    · simp [entries]
    · simp [entries]

theorem put_added (h : Ok a) (hattr : 0 < attr)
    (hp : a.put (fun v => v + iValue) attr iValue = some a') :
    Added iAttrID iCurValue attr iValue a.entries a'.entries := by
  obtain ⟨-, p, xs, ys, q, he, he', -, -, hw⟩ := put_written h hattr hp
  rw [he, he']
  apply Added.append
  rcases hw with ⟨hw, -⟩ | ⟨hw, -⟩
  · exact hw.added
  · exact hw.added

theorem put_ne (h : Ok a) (hattr : 0 < attr) (hp : a.put upd attr iValue = some a')
    (hne : id ≠ attr) : valuesFor id a'.entries = valuesFor id a.entries := by
  obtain ⟨-, p, xs, ys, q, he, he', -, -, hw⟩ := put_written h hattr hp
  have hsame : valuesFor id ys = valuesFor id xs := by
    rcases hw with ⟨hw, -⟩ | ⟨hw, -⟩
    · exact hw.valuesFor_ne hne
    · exact hw.valuesFor_ne hne
  rw [he, he']
  simp only [valuesFor_append, hsame]

theorem put_set (h : Ok a) (hattr : 0 < attr)
    (hp : a.put (fun _ => iValue) attr iValue = some a') (hclean : a.SetClean attr) :
    valuesFor attr a'.entries = [iValue] := by
  obtain ⟨-, p, xs, ys, q, he, he', hno, hnd, hw⟩ := put_written h hattr hp
  unfold SetClean at hclean
  have hys : valuesFor attr ys = [iValue] ∧ valuesFor attr q = [] := by
    rcases hw with ⟨hw, rfl⟩ | ⟨hw, rfl, rfl⟩
    · exact ⟨hw.valuesFor_set hnd, valuesFor_eq_nil.mpr hclean⟩
    · refine ⟨hw.valuesFor_new ?_, rfl⟩
      simp only [idsOf, map_append, mem_append, not_or] at hclean
      exact hclean.2
  rw [he', valuesFor_append, valuesFor_append, valuesFor_eq_nil.mpr hno, hys.1, hys.2]
  rfl

end Store

/-! ## One batch -/

/-- A batch of `ReadAttr`: sorted by attribute, none twice. -/
structure BatchOk (b : List AttrNode) : Prop where
  sorted : (b.map fun e => e.iAttrID.toInt).Pairwise (· < ·)
  pos : ∀ e ∈ b, 0 < e.iAttrID

section Batch

variable {b : List AttrNode} {d : AttrNode} {c : Cells AttrNode}

theorem attrCmp_eq {x y : AttrNode} (hx : 0 < x.iAttrID) (hy : 0 < y.iAttrID) :
    attrCmp x y = x.iAttrID.toInt - y.iAttrID.toInt := by
  have h1 := toInt_pos hx
  have h2 := toInt_pos hy
  have h3 := x.iAttrID.toInt_lt
  have h4 := y.iAttrID.toInt_lt
  unfold attrCmp
  rw [Int32.toInt_sub, Int.bmod_eq_of_le] <;> omega

theorem BatchOk.nodup (h : BatchOk b) : (idsOf b).Nodup := by
  have hne : (b.map fun e => e.iAttrID.toInt).Pairwise (· ≠ ·) := h.sorted.imp fun hlt => ne_of_lt hlt
  rw [pairwise_map] at hne
  unfold idsOf List.Nodup
  rw [pairwise_map]
  exact hne.imp fun hxy heq => hxy (by rw [heq])

theorem batchOk_qsort (hpos : ∀ e ∈ b, 0 < e.iAttrID) (hnd : (idsOf b).Nodup) :
    BatchOk (qsort attrCmp b) where
  sorted := by
    apply qsort_sorted
    · intro x hx y hy
      rw [attrCmp_eq (hpos x hx) (hpos y hy)]
      omega
    · have hmap : b.map (fun e => e.iAttrID.toInt) = (idsOf b).map Int32.toInt := by simp [idsOf]
      rw [hmap]
      exact hnd.map fun _ _ => Int32.toInt_inj.mp
  pos e he := hpos e ((qsort_perm attrCmp b).mem_iff.mp he)

theorem batchTake_added (h : BatchOk b) (hd : 0 < d.iAttrID) : BatchOk (batchTake b d) ∧
      Added iAttrID iCurValue d.iAttrID d.iCurValue b (batchTake b d) ∧
      (batchTake b d).length ≤ b.length + 1 := by
  have hneg : ∀ x ∈ b, attrCmp d x < 0 ↔ d.iAttrID.toInt < x.iAttrID.toInt := by
    intro x hx
    rw [attrCmp_eq hd (h.pos x hx)]
    omega
  have hpos : ∀ x ∈ b, 0 < attrCmp d x ↔ x.iAttrID.toInt < d.iAttrID.toInt := by
    intro x hx
    rw [attrCmp_eq hd (h.pos x hx)]
    omega
  unfold batchTake
  rcases bsearch_cases h.sorted hneg hpos with ⟨l1, x, l2, rfl, hx, hb⟩ | ⟨hno, hb⟩
  · rw [hb]
    dsimp only
    have hmod : (l1 ++ x :: l2).modify l1.length (fun e => e.setValue (e.iCurValue + d.iCurValue)) =
        l1 ++ x.setValue (x.iCurValue + d.iCurValue) :: l2 := by
      simp [modify_eq_take_cons_drop]
    rw [hmod]
    have hid := Int32.toInt_inj.mp hx
    refine ⟨⟨?_, forall_mem_replace h.pos (h.pos x (by simp))⟩, .merge l1 x _ l2 rfl hid hid rfl,
      by simp⟩
    have := h.sorted
    simpa using this
  · rw [hb]
    dsimp only
    split
    · have hperm : (qsort attrCmp (b ++ [d])).Perm (d :: b) :=
        (qsort_perm _ _).trans (perm_append_singleton d b)
      refine ⟨batchOk_qsort ?_ ?_, .new d rfl rfl hperm, by rw [hperm.length_eq]; simp⟩
      · exact forall_mem_append.mpr ⟨h.pos, forall_mem_singleton.mpr hd⟩
      have happ : idsOf (b ++ [d]) = idsOf b ++ [d.iAttrID] := by simp [idsOf]
      rw [happ]
      refine h.nodup.append (nodup_singleton _) ?_
      rw [disjoint_singleton]
      intro hmem
      obtain ⟨x, hx, he⟩ := List.mem_map.mp hmem
      exact hno x hx (by rw [he])
    · rename_i hval
      exact ⟨h, .drop hval, by omega⟩

theorem drain_moves :
    ∀ {c : Cells AttrNode} {b}, BatchOk b → b.length ≤ readPerEach →
      (∀ id ∈ idsOf c.vals, 0 < id) →
      Moves iAttrID iCurValue b c.vals (c.drain batchFull batchTake b).2
          (c.drain batchFull batchTake b).1.vals ∧
        BatchOk (c.drain batchFull batchTake b).2 ∧
        (c.drain batchFull batchTake b).2.length ≤ readPerEach ∧
        (c.drain batchFull batchTake b).1 <:+ c ∧
        ((c.drain batchFull batchTake b).2.length < readPerEach →
          (c.drain batchFull batchTake b).1 = []) := by
  intro c
  induction c with
  | nil => intro b h hlen _; exact ⟨.refl _ _, h, hlen, suffix_refl _, fun _ => rfl⟩
  | cons p c ih =>
    intro b h hlen hpos
    unfold Cells.drain
    split
    · rename_i hfull
      have hfull' : readPerEach ≤ b.length := by simpa [batchFull] using hfull
      exact ⟨.refl _ _, h, hlen, suffix_refl _, fun hlt => absurd hfull' (not_le.mpr hlt)⟩
    · rename_i hfull
      have hroom : b.length < readPerEach := by simpa [batchFull] using hfull
      have hd : 0 < p.2.iAttrID := hpos _ (by simp [idsOf, vals])
      obtain ⟨h1, hadd, hlen1⟩ := batchTake_added h hd
      obtain ⟨hm, hok, hle, hsuf, hlast⟩ := ih h1 (by omega) fun id hid => hpos id (by
        exact mem_cons_of_mem _ hid)
      exact ⟨.step hadd hm, hok, hle, hsuf.trans (suffix_cons _ _), hlast⟩

theorem readCells_moves :
    ∀ {cs} {b}, BatchOk b → b.length ≤ readPerEach →
      (∀ c ∈ cs, CellsOk c) →
      Moves iAttrID iCurValue b (cs.flatMap vals) (readCells cs b).2
          ((readCells cs b).1.flatMap vals) ∧
        BatchOk (readCells cs b).2 ∧ (readCells cs b).2.length ≤ readPerEach ∧
        ∀ c ∈ (readCells cs b).1, CellsOk c := by
  intro cs
  induction cs with
  | nil => intro b h hlen hok; exact ⟨.refl _ _, h, hlen, hok⟩
  | cons c cs ih =>
    intro b h hlen hok
    obtain ⟨hc, hcs⟩ := forall_mem_cons.mp hok
    obtain ⟨hm, hb, hle, hsuf, hlast⟩ := drain_moves h hlen hc.pos
    have hc' := hc.suffix hsuf
    have hm := hm.append (cs.flatMap vals)
    unfold readCells
    dsimp only
    split
    · exact ⟨hm, hb, hle, forall_mem_cons.mpr ⟨hc', hcs⟩⟩
    · rename_i hlt
      rw [hlast (not_le.mp hlt)] at hm hc' ⊢
      obtain ⟨hm', hb', hle', hcs'⟩ := ih hb hle hcs
      exact ⟨hm.trans hm', hb', hle', forall_mem_cons.mpr ⟨hc', hcs'⟩⟩

/-- A batch starts with special entries and goes on with those of the tables. -/
theorem Store.read_moves {a : Store} (h : a.Ok) :
    a.read.1.Ok ∧ a.read.2.length ≤ readPerEach ∧ (idsOf a.read.2).Nodup ∧
      ∃ b r, (b ++ r).Perm a.entries ∧ Moves iAttrID iCurValue b r a.read.2 a.read.1.entries := by
  have hpos : ∀ e ∈ a.spec, 0 < e.iAttrID := fun e he => h.pos _ (List.mem_map_of_mem he)
  unfold read
  split
  · have hsub : (a.spec.drop readPerEach).Sublist a.spec := drop_sublist _ _
    have hids : ∀ {l}, l.Sublist a.spec → (idsOf l).Nodup := fun hs =>
      h.ids.sublist (hs.map _)
    refine ⟨⟨h.cells, hids hsub, fun id hid => h.pos id ((hsub.map _).subset hid)⟩, ?_,
      hids (take_sublist _ _), _, _, ?_, .refl _ _⟩
    · exact length_take_le _ _
    · unfold entries
      conv => rhs; rw [← take_append_drop readPerEach a.spec]
      exact perm_append_comm_assoc _ _ _
  · rename_i hle
    have hperm := qsort_perm attrCmp a.spec
    have hlen : (qsort attrCmp a.spec).length ≤ readPerEach := by
      rw [hperm.length_eq]
      exact not_lt.mp hle
    obtain ⟨hm, hb, hle', hcs⟩ := readCells_moves (batchOk_qsort hpos h.ids) hlen h.cells
    refine ⟨⟨hcs, nodup_nil, by simp [idsOf]⟩, hle', hb.nodup, qsort attrCmp a.spec,
      a.tables.flatMap vals, ?_, ?_⟩
    · exact perm_append_comm.trans (hperm.append_left _)
    · unfold entries
      simpa using hm

end Batch

/-! ## Runs -/

inductive Call
  | add (attr iValue : Int32) (now : Nat)
  | set (attr iValue : Int32) (now : Nat)
  | read (now : Nat)

/-- The attribute a call reports. -/
def Call.attr : Call → Option Int32
  | .add attr _ _ => some attr
  | .set attr _ _ => some attr
  | .read _ => none

/-- The memory, the batches and the adds that returned 0. -/
structure Sys (S : Type) where
  mem : S
  batches : List (List AttrNode)
  added : List (Int32 × Int32)

/-- The sum of `iValue` over the adds of attribute `id` that returned 0. -/
def Sys.addedSum {S : Type} (id : Int32) (s : Sys S) : Int := sumOf Prod.fst Prod.snd id s.added

def Sys.init : Sys MtShm := ⟨MtShm.init, [], []⟩

/-- A call of the process `pid`, or a batch of the agent; `wReadAttrCount` is 0
before each batch. -/
def step (pid : Nat) (s : Sys MtShm) : Call → Option (Sys MtShm)
  | .add attr iValue now =>
    let r := mtReportAttrAdd attr iValue pid now s.mem
    some { s with
      mem := r.1
      added := if r.2 = 0 then s.added ++ [(attr, iValue)] else s.added }
  | .set attr iValue now => some { s with mem := (mtReportAttrSet attr iValue pid now s.mem).1 }
  | .read now =>
    let r := readAttr pid now s.mem
    some { s with mem := r.1, batches := s.batches ++ [r.2] }

/-- No `MtReport_Attr_Spec` fails: a report with valid arguments does not return
its -1. -/
def SpecOk (pid : Nat) (s : Sys MtShm) : Call → Prop
  | .add attr iValue now =>
    ¬ (attr ≤ 0 ∨ iValue ≤ 0) → (mtReportAttrAdd attr iValue pid now s.mem).2 ≠ -1
  | .set attr iValue now =>
    ¬ (attr ≤ 0 ∨ iValue ≤ 0) → (mtReportAttrSet attr iValue pid now s.mem).2 ≠ -1
  | .read _ => True

/-- The same over the store. -/
def storeStep (a : Sys Store) : Call → Option (Sys Store)
  | .add attr iValue _ =>
    if attr ≤ 0 ∨ iValue ≤ 0 then some a
    else (a.mem.put (fun v => v + iValue) attr iValue).map fun m =>
      { a with mem := m, added := a.added ++ [(attr, iValue)] }
  | .set attr iValue _ =>
    if attr ≤ 0 ∨ iValue ≤ 0 then some a
    else (a.mem.put (fun _ => iValue) attr iValue).map fun m => { a with mem := m }
  | .read _ => some { a with mem := a.mem.read.1, batches := a.batches ++ [a.mem.read.2] }

theorem valid_pos {attr : Int32} (h : ¬ (attr ≤ 0 ∨ iValue ≤ 0)) : 0 < attr ∧ 0 < iValue := by
  rw [not_or] at h
  exact ⟨Int32.not_le.mp h.1, Int32.not_le.mp h.2⟩

theorem report_cases {a a' : Sys Store} {upd : Int32 → Int32} {attr : Int32}
    {added : List (Int32 × Int32)}
    (h : (if attr ≤ 0 ∨ iValue ≤ 0 then some a
      else (a.mem.put upd attr iValue).map fun m => { a with mem := m, added := added }) = some a') :
    a' = a ∨ ∃ m, ¬ (attr ≤ 0 ∨ iValue ≤ 0) ∧ a.mem.put upd attr iValue = some m ∧
      a' = { a with mem := m, added := added } := by
  split at h
  · exact .inl (Option.some.inj h).symm
  · rename_i hv
    obtain ⟨m, hp, rfl⟩ := map_eq_some_iff.mp h
    exact .inr ⟨m, hv, hp, rfl⟩

/-- What a step of the store does: nothing, a report, or a batch. -/
theorem storeStep_cases {a a' : Sys Store} {c : Call} (h : storeStep a c = some a') : a' = a ∨
    (∃ upd attr iValue m added, c.attr = some attr ∧ 0 < attr ∧
      a.mem.put upd attr iValue = some m ∧ a' = { a with mem := m, added := added }) ∨
    a' = { a with mem := a.mem.read.1, batches := a.batches ++ [a.mem.read.2] } := by
  cases c with
  | add attr iValue now =>
    exact (report_cases h).imp_right fun ⟨m, hv, hp, he⟩ =>
      .inl ⟨_, attr, iValue, m, _, rfl, (valid_pos hv).1, hp, he⟩
  | set attr iValue now =>
    exact (report_cases h).imp_right fun ⟨m, hv, hp, he⟩ =>
      .inl ⟨_, attr, iValue, m, _, rfl, (valid_pos hv).1, hp, he⟩
  | read now => exact .inr (.inr (Option.some.inj h).symm)

structure SysRefines (pid : Nat) (s : Sys MtShm) (a : Sys Store) : Prop where
  mem : Refines pid s.mem a.mem
  batches : s.batches = a.batches
  added : s.added = a.added

namespace SysRefines

variable {pid : Nat} {s s' : Sys MtShm} {a a' : Sys Store}

theorem init : SysRefines pid Sys.init ⟨init, [], []⟩ := ⟨Refines.init, rfl, rfl⟩

theorem attrPut_invalid {upd : Int32 → Int32} {attr iValue : Int32} {now : Nat} {m : MtShm}
    (hv : attr ≤ 0 ∨ iValue ≤ 0) : attrPut upd attr iValue pid now m = (m, -1) := by
  rw [attrPut, if_pos hv]

/-- A step is a step of the store, unless an `MtReport_Attr_Spec` fails. -/
theorem step (h : SysRefines pid s a) (c : Call) :
    (∃ a' s', storeStep a c = some a' ∧ AgentAttr.step pid s c = some s' ∧ SpecOk pid s c ∧
      SysRefines pid s' a') ∨
    (storeStep a c = none ∧ ¬ SpecOk pid s c) := by
  cases c with
  | add attr iValue now =>
    unfold storeStep AgentAttr.step SpecOk mtReportAttrAdd
    dsimp only
    by_cases hv : attr ≤ 0 ∨ iValue ≤ 0
    · simp only [if_pos hv, attrPut_invalid hv]
      exact .inl ⟨_, _, rfl, rfl, fun hn => absurd hv hn, h⟩
    rw [if_neg hv]
    rcases h.mem.attrPut (fun v => v + iValue) attr iValue now hv with
      ⟨m', t', hp, hr, h'⟩ | ⟨hp, hr⟩
    · rw [hp, hr]
      exact .inl ⟨_, _, rfl, rfl, fun _ => by simp, h', h.batches, by simp [h.added]⟩
    · rw [hp]
      exact .inr ⟨rfl, fun hok => hok hv hr⟩
  | set attr iValue now =>
    unfold storeStep AgentAttr.step SpecOk mtReportAttrSet
    dsimp only
    by_cases hv : attr ≤ 0 ∨ iValue ≤ 0
    · simp only [if_pos hv, attrPut_invalid hv]
      exact .inl ⟨_, _, rfl, rfl, fun hn => absurd hv hn, h⟩
    rw [if_neg hv]
    rcases h.mem.attrPut (fun _ => iValue) attr iValue now hv with ⟨m', t', hp, hr, h'⟩ | ⟨hp, hr⟩
    · rw [hp, hr]
      exact .inl ⟨_, _, rfl, rfl, fun _ => by simp, h', h.batches, h.added⟩
    · rw [hp]
      exact .inr ⟨rfl, fun hok => hok hv hr⟩
  | read now =>
    obtain ⟨t', hr, h'⟩ := h.mem.readAttr now
    unfold storeStep AgentAttr.step
    dsimp only
    rw [hr]
    exact .inl ⟨_, _, rfl, rfl, trivial, h', by simp [h.batches], h.added⟩

theorem of_step {c : Call} (h : SysRefines pid s a) (hok : SpecOk pid s c)
    (hs : AgentAttr.step pid s c = some s') : ∃ a', storeStep a c = some a' ∧ SysRefines pid s' a' := by
  rcases h.step c with ⟨a', s'', ha, hs', -, h'⟩ | ⟨-, hno⟩
  · rw [hs] at hs'
    cases hs'
    exact ⟨a', ha, h'⟩
  · exact absurd hok hno

/-- A run of the store is a run of the calls. -/
theorem run_of_store : ∀ {cs} {s} {a}, SysRefines pid s a →
      run storeStep cs a = some a' →
      Meets (AgentAttr.step pid) (SpecOk pid) cs s ∧
        ∃ s', run (AgentAttr.step pid) cs s = some s' ∧ SysRefines pid s' a' := by
  intro cs
  induction cs with
  | nil =>
    intro s a h hr
    cases hr
    exact ⟨trivial, s, rfl, h⟩
  | cons c cs ih =>
    intro s a h hr
    obtain ⟨a1, ha, hr⟩ := bind_eq_some_iff.mp hr
    rcases h.step c with ⟨a1', s1, ha', hs, hok, h₁⟩ | ⟨hnone, -⟩
    · rw [ha] at ha'
      cases ha'
      obtain ⟨hm, s', hr', h'⟩ := ih h₁ hr
      exact ⟨(Meets.cons_iff hs).mpr ⟨hok, hm⟩, s', by rw [run, hs]; exact hr', h'⟩
    · rw [ha] at hnone
      cases hnone

end SysRefines

/-! ## Adds and batches -/

/-- What is stored and what was reported of an attribute are what was added. -/
structure Accounted (a : Sys Store) : Prop where
  ok : a.mem.Ok
  balance : Balance iAttrID iCurValue a.mem.entries a.batches.flatten a.added
  batches : ∀ b ∈ a.batches, b.length ≤ readPerEach ∧ (idsOf b).Nodup

/-- No `MtReport_Attr_Spec` fails, and the sum of the attribute's adds stays below
2^31; there is no set. -/
def AddFits (pid : Nat) (s : Sys MtShm) (c : Call) : Prop :=
  SpecOk pid s c ∧
    match c with
    | .add attr iValue _ => ¬ (attr ≤ 0 ∨ iValue ≤ 0) → s.addedSum attr + iValue.toInt < 2 ^ 31
    | .set _ _ _ => False
    | .read _ => True

namespace Accounted

variable {a a' : Sys Store}

theorem init : Accounted ⟨init, [], []⟩ where
  ok := .init
  balance := .init
  batches b hb := by cases hb

theorem add {attr iValue : Int32} {m : Store} (h : Accounted a) (hattr : 0 < attr)
    (hval : 0 < iValue) (hp : a.mem.put (fun v => v + iValue) attr iValue = some m)
    (hfit : a.addedSum attr + iValue.toInt < 2 ^ 31) :
    Accounted { a with mem := m, added := a.added ++ [(attr, iValue)] } :=
  ⟨(put_written h.ok hattr hp).1, h.balance.add (put_added h.ok hattr hp) hval hfit, h.batches⟩

theorem read (h : Accounted a) :
    Accounted { a with mem := a.mem.read.1, batches := a.batches ++ [a.mem.read.2] } := by
  obtain ⟨hok, hlen, hnd, b, r, hperm, hm⟩ := read_moves h.ok
  refine ⟨hok, ?_, forall_mem_append.mpr ⟨h.batches, forall_mem_singleton.mpr ⟨hlen, hnd⟩⟩⟩
  have := h.balance.move hperm hm
  simpa using this

end Accounted

theorem accounted_step (s : Sys MtShm) (c : Call) (s' : Sys MtShm)
    (h : ∃ a, SysRefines pid s a ∧ Accounted a) (hfit : AddFits pid s c)
    (hs : step pid s c = some s') : ∃ a, SysRefines pid s' a ∧ Accounted a := by
  obtain ⟨a, href, hacc⟩ := h
  obtain ⟨hok, hfit⟩ := hfit
  obtain ⟨a', ha, href'⟩ := href.of_step hok hs
  refine ⟨a', href', ?_⟩
  cases c with
  | add attr iValue now =>
    rcases report_cases ha with rfl | ⟨m, hv, hp, rfl⟩
    · exact hacc
    · have hroom : a.addedSum attr + iValue.toInt < 2 ^ 31 := by
        have := hfit hv
        rwa [Sys.addedSum, href.added] at this
      exact hacc.add (valid_pos hv).1 (valid_pos hv).2 hp hroom
  | set attr iValue now => cases hfit
  | read now =>
    cases ha
    exact hacc.read

/-- After every run of adds and batches in which no `MtReport_Attr_Spec` fails and
no sum of an attribute leaves 31 bits: of each attribute, what the batches had and
what is stored is what was added; and no batch is too long or has an attribute
twice. -/
theorem attr_values_accounted (pid : Nat) (cs : List Call) {s : Sys MtShm}
    (hm : Meets (step pid) (AddFits pid) cs Sys.init)
    (hr : run (step pid) cs Sys.init = some s) :
    (∀ id, sumFor id s.batches.flatten + sumFor id s.mem.stored = s.addedSum id) ∧
      ∀ b ∈ s.batches, b.length ≤ readPerEach ∧ (idsOf b).Nodup := by
  obtain ⟨a, href, hacc⟩ := run_keeps accounted_step ⟨_, .init, .init⟩ hm hr
  constructor
  · intro id
    have hsum : sumFor id a.batches.flatten + sumFor id a.mem.entries = a.addedSum id :=
      hacc.balance.sums id
    have hstored : sumFor id s.mem.stored = sumFor id a.mem.entries := sumOf_perm href.mem.stored_perm
    rw [href.batches, hstored, hsum, Sys.addedSum, Sys.addedSum, href.added]
  · rw [href.batches]
    exact hacc.batches

/-- Two adds of one attribute, a batch, an add of another. -/
def fewCalls : List Call := [.add 1 5 10, .add 1 7 11, .read 12, .add 2 3 13]

instance decidableAddFits (pid : Nat) (s : Sys MtShm) (c : Call) : Decidable (AddFits pid s c) :=
  match c with
  | .add attr iValue now => inferInstanceAs (Decidable
      ((¬ (attr ≤ 0 ∨ iValue ≤ 0) → (mtReportAttrAdd attr iValue pid now s.mem).2 ≠ -1) ∧
        (¬ (attr ≤ 0 ∨ iValue ≤ 0) → s.addedSum attr + iValue.toInt < 2 ^ 31)))
  | .set _ _ _ => .isFalse fun h => h.2
  | .read _ => .isTrue ⟨trivial, trivial⟩

theorem attr_values_accounted_few :
    ∃ s, run (step 1) fewCalls Sys.init = some s ∧ s.addedSum 1 = 12 ∧
      sumFor 1 s.batches.flatten + sumFor 1 s.mem.stored = 12 := by
  have hm : Meets (step 1) (AddFits 1) fewCalls Sys.init := by decide +kernel
  have hadded : (run (step 1) fewCalls Sys.init).map Sys.added = some [(1, 5), (1, 7), (2, 3)] := by
    decide +kernel
  obtain ⟨s, hr, hadded⟩ := map_eq_some_iff.mp hadded
  have hsum : s.addedSum 1 = 12 := by
    rw [Sys.addedSum, hadded]
    decide
  exact ⟨s, hr, hsum, ((attr_values_accounted 1 fewCalls hm hr).1 1).trans hsum⟩

/-! ## Sets -/

/-- A table in which a report of `attr` finds a node to write. -/
def takes (attr : Int32) (t : Table AttrNode) : Bool :=
  (t.hashTableSearchEx (stRecord attr) (shortKey attr)).1.isSome

/-- `attr` is not stored behind the first table that takes a report of it, nor in
the special list. -/
def MtShm.SetClean (attr : Int32) (s : MtShm) : Prop :=
  attr ∉ idsOf ((after (takes attr) s.stAttrHash).flatMap Table.entries ++ s.spec)

section Clean

variable {pid : Nat} (attr : Int32)

theorem takes_eq {t : Table AttrNode} {c : Cells AttrNode}
    (h : Holds attrRows mtreportAttrCmp pid t c) : takes attr t = takesCells attr c := by
  unfold takes takesCells searchCells slotsOf
  rw [h.searchEx_eq, attrRows_nums]

theorem after_sim {ts : List (Table AttrNode)} {cs : List (Cells AttrNode)}
    (h : List.Forall₂ (Holds attrRows mtreportAttrCmp pid) ts cs) :
    List.Forall₂ (Holds attrRows mtreportAttrCmp pid) (after (takes attr) ts)
      (after (takesCells attr) cs) := by
  induction h with
  | nil => exact .nil
  | cons ht hts ih =>
    unfold after
    rw [takes_eq attr ht]
    split
    · exact hts
    · exact ih

theorem Refines.setClean {s : MtShm} {a : Store} (h : Refines pid s a) :
    s.SetClean attr ↔ a.SetClean attr := by
  have hperm := (tables_entries (after_sim attr h.tables)).append_right a.spec
  unfold MtShm.SetClean Store.SetClean
  rw [h.spec]
  exact not_congr (hperm.map iAttrID).mem_iff

end Clean

theorem ok_step (s : Sys MtShm) (c : Call) (s' : Sys MtShm)
    (h : ∃ a, SysRefines pid s a ∧ a.mem.Ok) (hok : SpecOk pid s c) (hs : step pid s c = some s') :
    ∃ a, SysRefines pid s' a ∧ a.mem.Ok := by
  obtain ⟨a, href, ha⟩ := h
  obtain ⟨a', hstep, href'⟩ := href.of_step hok hs
  refine ⟨a', href', ?_⟩
  rcases storeStep_cases hstep with rfl | ⟨upd, attr, iValue, m, added, -, hattr, hp, rfl⟩ | rfl
  · exact ha
  · exact (put_written ha hattr hp).1
  · exact (read_moves ha).1

/-- Since the batches `bs0` attribute `id` has been reported or is stored once, with
the value `v`. -/
structure Pending (id v : Int32) (bs0 : List (List AttrNode)) (a : Sys Store) : Prop where
  ok : a.mem.Ok
  once : ∃ bs, a.batches = bs0 ++ bs ∧ (valuesFor id (bs.flatten ++ a.mem.entries)).Perm [v]

section SetRun

variable {id v : Int32} {bs0 : List (List AttrNode)} {a : Sys Store}

theorem Pending.put {upd : Int32 → Int32} {attr iValue : Int32} {m : Store}
    (h : Pending id v bs0 a) (hattr : 0 < attr) (hne : id ≠ attr)
    (hp : a.mem.put upd attr iValue = some m) (added : List (Int32 × Int32)) :
    Pending id v bs0 { a with mem := m, added := added } := by
  obtain ⟨bs, hb, hv⟩ := h.once
  refine ⟨(put_written h.ok hattr hp).1, bs, hb, ?_⟩
  rw [valuesFor_append] at hv ⊢
  rw [put_ne h.ok hattr hp hne]
  exact hv

theorem Pending.read (h : Pending id v bs0 a) (hv : 0 < v) :
    Pending id v bs0 { a with mem := a.mem.read.1, batches := a.batches ++ [a.mem.read.2] } := by
  obtain ⟨bs, hb, hperm⟩ := h.once
  obtain ⟨hok, -, -, b, r, hbr, hm⟩ := read_moves h.ok
  -- what is stored of the attribute is a part of the one value
  have hstored : (valuesFor id (b ++ r)).Perm (valuesFor id a.mem.entries) := valuesOf_perm hbr
  have hsub : (valuesFor id a.mem.entries).Subperm [v] := by
    rw [valuesFor_append] at hperm
    exact (sublist_append_right _ _).subperm.trans hperm.subperm
  have hle : (valuesFor id (b ++ r)).length ≤ 1 := by
    rw [hstored.length_eq]
    exact hsub.length_le
  have hpos : ∀ w ∈ valuesFor id (b ++ r), 0 < w := by
    intro w hw
    rw [mem_singleton.mp (hsub.subset (hstored.subset hw))]
    exact hv
  have hmove := (hm.valuesOf hle hpos).trans hstored
  refine ⟨hok, bs ++ [a.mem.read.2], by simp [hb], ?_⟩
  refine List.Perm.trans ?_ hperm
  rw [flatten_append, flatten_singleton, append_assoc, valuesFor_append,
    @valuesFor_append id bs.flatten]
  exact hmove.append_left _

end SetRun

theorem pending_step {id v : Int32} {bs0 : List (List AttrNode)} (hv : 0 < v)
    (s : Sys MtShm) (c : Call) (s' : Sys MtShm)
    (h : ∃ a, SysRefines pid s a ∧ Pending id v bs0 a) (hok : c.attr ≠ some id ∧ SpecOk pid s c)
    (hs : step pid s c = some s') : ∃ a, SysRefines pid s' a ∧ Pending id v bs0 a := by
  obtain ⟨a, href, ha⟩ := h
  obtain ⟨hne, hok⟩ := hok
  obtain ⟨a', hstep, href'⟩ := href.of_step hok hs
  refine ⟨a', href', ?_⟩
  rcases storeStep_cases hstep with rfl | ⟨upd, attr, iValue, m, added, hattr, hpos, hp, rfl⟩ | rfl
  · exact ha
  · exact ha.put hpos (fun he => hne (he ▸ hattr)) hp added
  · exact ha.read hv

/-- After a set of `attr` that returned 0, from a state in which `attr` is stored
nowhere behind the table it writes: when calls on other attributes and batches have
followed and everything is empty, the batches since then had exactly the value. -/
theorem attr_set_reported (pid : Nat) (cs1 cs2 : List Call) {attr iValue : Int32} {now : Nat}
    {s1 s2 s3 : Sys MtShm} (hm1 : Meets (step pid) (SpecOk pid) cs1 Sys.init)
    (hr1 : run (step pid) cs1 Sys.init = some s1)
    (hret : (mtReportAttrSet attr iValue pid now s1.mem).2 = 0) (hclean : s1.mem.SetClean attr)
    (hset : step pid s1 (.set attr iValue now) = some s2)
    (hother : ∀ c ∈ cs2, c.attr ≠ some attr) (hm2 : Meets (step pid) (SpecOk pid) cs2 s2)
    (hr2 : run (step pid) cs2 s2 = some s3) (hempty : s3.mem.stored = [])
    {bs : List (List AttrNode)} (hbs : s3.batches = s2.batches ++ bs) :
    sumFor attr bs.flatten = iValue.toInt := by
  obtain ⟨a1, href1, hok1⟩ := run_keeps ok_step ⟨_, .init, .init⟩ hm1 hr1
  have hv : ¬ (attr ≤ 0 ∨ iValue ≤ 0) := by
    intro hv
    rw [mtReportAttrSet, SysRefines.attrPut_invalid hv] at hret
    cases hret
  have hspec : SpecOk pid s1 (.set attr iValue now) := by
    intro _
    rw [hret]
    decide
  obtain ⟨a2, hstep, href2⟩ := href1.of_step hspec hset
  unfold storeStep at hstep
  dsimp only at hstep
  rw [if_neg hv] at hstep
  obtain ⟨m, hp, rfl⟩ := map_eq_some_iff.mp hstep
  have hattr := (valid_pos hv).1
  have hpend : Pending attr iValue s2.batches { a1 with mem := m } := by
    refine ⟨(put_written hok1 hattr hp).1, [], by simp [href2.batches], ?_⟩
    have hone := put_set hok1 hattr hp ((href1.mem.setClean attr).mp hclean)
    rw [flatten_nil, nil_append, hone]
  obtain ⟨a3, href3, hpend3⟩ := run_keeps (pending_step (valid_pos hv).2) ⟨_, href2, hpend⟩
    (hm2.and_mem hother) hr2
  obtain ⟨bs', hbs', hperm⟩ := hpend3.once
  have heq : bs' = bs := by
    rw [← href3.batches, hbs] at hbs'
    exact (append_cancel_left hbs').symm
  have hnil : a3.mem.entries = [] := by
    have := href3.mem.stored_perm
    rw [hempty] at this
    exact this.symm.eq_nil
  rw [hnil, append_nil, heq] at hperm
  unfold sumFor sumOf
  unfold valuesFor at hperm
  rw [perm_singleton.mp hperm]
  simp

instance (attr : Int32) (a : Store) : Decidable (a.SetClean attr) :=
  inferInstanceAs (Decidable (_ ∉ _))

/-- A set and one batch that empties everything, over the store: what is left, the
batch, and whether the set was clean. -/
def setRead (cs : List Call) (attr iValue : Int32) : Option (List AttrNode × List AttrNode × Bool) :=
  (run storeStep cs ⟨init, [], []⟩).bind fun a =>
    (a.mem.put (fun _ => iValue) attr iValue).map fun m =>
      (m.read.1.entries, m.read.2, decide (a.mem.SetClean attr))

theorem setRead_run {cs : List Call} {attr : Int32} {b : List AttrNode} {clean : Bool}
    (h : setRead cs attr iValue = some ([], b, clean)) (hv : ¬ (attr ≤ 0 ∨ iValue ≤ 0))
    (pid now t : Nat) :
    ∃ s1 s2 s3, Meets (step pid) (SpecOk pid) cs Sys.init ∧
      run (step pid) cs Sys.init = some s1 ∧ (s1.mem.SetClean attr ↔ clean = true) ∧
      (mtReportAttrSet attr iValue pid now s1.mem).2 = 0 ∧
      step pid s1 (.set attr iValue now) = some s2 ∧ run (step pid) [.read t] s2 = some s3 ∧
      s3.mem.stored = [] ∧ s3.batches = s2.batches ++ [b] := by
  obtain ⟨a, hr, h⟩ := bind_eq_some_iff.mp h
  obtain ⟨m, hp, h⟩ := map_eq_some_iff.mp h
  obtain ⟨hnil, h⟩ := Prod.mk.inj h
  obtain ⟨rfl, rfl⟩ := Prod.mk.inj h
  obtain ⟨hm, s1, hr1, href1⟩ := (SysRefines.init : SysRefines pid _ _).run_of_store hr
  rcases href1.mem.attrPut (fun _ => iValue) attr iValue now hv with ⟨m', t2, hp', hset, href2⟩ | ⟨hno, -⟩
  · rw [hp] at hp'
    cases hp'
    obtain ⟨t3, hread, href3⟩ := href2.readAttr t
    refine ⟨s1, { s1 with mem := t2 }, { s1 with mem := t3, batches := s1.batches ++ [m.read.2] }, hm,
      hr1, ?_, ?_, ?_, ?_, ?_, rfl⟩
    · rw [href1.mem.setClean]
      simp
    · rw [mtReportAttrSet, hset]
    · rw [step, mtReportAttrSet, hset]
    · simp only [run, step, hread, bind_some]
    · have := href3.stored_perm
      rw [hnil] at this
      exact this.eq_nil
  · rw [hp] at hno
    cases hno

theorem attr_set_reported_once :
    ∃ s1 s2 s3, run (step 1) [.add 1 5 10, .add 2 3 11] Sys.init = some s1 ∧ s1.mem.SetClean 1 ∧
      (mtReportAttrSet 1 7 1 12 s1.mem).2 = 0 ∧ step 1 s1 (.set 1 7 12) = some s2 ∧
      run (step 1) [.read 13] s2 = some s3 ∧ s3.mem.stored = [] ∧
      ∃ bs, s3.batches = s2.batches ++ bs ∧ sumFor 1 bs.flatten = 7 := by
  have h : setRead [.add 1 5 10, .add 2 3 11] 1 7 = some ([], [⟨1, 1, 7⟩, ⟨1, 2, 3⟩], true) := by
    decide +kernel
  obtain ⟨s1, s2, s3, hm, hr, hclean, hret, hset, hread, hempty, hbs⟩ :=
    setRead_run h (by decide) 1 12 13
  have hm2 : Meets (step 1) (SpecOk 1) [.read 13] s2 := ⟨trivial, fun _ _ => trivial⟩
  exact ⟨s1, s2, s3, hr, hclean.mpr rfl, hret, hset, hread, hempty, _, hbs,
    attr_set_reported 1 _ _ hm hr hret (hclean.mpr rfl) hset (by simp [Call.attr]) hm2 hread hempty hbs⟩

/-- 120 attributes for the first table. The first 68 take all slots of attribute 1
there. -/
def fillers : List Int32 :=
  [2000, 3992004, 13, 3980022, 73, 27999, 3960092, 614, 1765849248, 1745929213, 249, 742264931, 736,
    480302465, 722344896, 1141, 664809, 582, 1943332430, 1202, 284594, 458899638, 1705250090, 397,
    592845, 1451, 54440218, 704, 851026, 410777213, 561, 476323, 33179963, 415644635, 1254824671,
    1458, 94026, 11049209, 627, 34325456, 1609, 227496, 161513204, 694836018, 48712, 92226491, 58,
    101739163, 720200861, 1729244404, 150, 55431, 119840754, 609895297, 287, 504539891, 76359,
    16444335, 1441572866, 306, 248612, 67121005, 363, 4666029, 82856003, 2974570, 1393887014,
    899562144] ++ (List.range 52).map fun i : Nat => 10000 + Int32.ofNat i

/-- Attribute 1 goes to the second table; the batch empties only the first. -/
def partDrained : List Call := (fillers.map fun id => .add id 1 10) ++ [.add 1 5 10, .read 70]

/-- The set of 7 goes to the first table, and is reported as 12 with the 5 that the
second table still has. -/
theorem attr_set_added_up : ∃ s1 s2 s3, Meets (step 1) (SpecOk 1) partDrained Sys.init ∧
      run (step 1) partDrained Sys.init = some s1 ∧ (mtReportAttrSet 1 7 1 71 s1.mem).2 = 0 ∧
      step 1 s1 (.set 1 7 71) = some s2 ∧ run (step 1) [.read 130] s2 = some s3 ∧
      s3.mem.stored = [] ∧ ∃ bs, s3.batches = s2.batches ++ bs ∧ sumFor 1 bs.flatten = 12 := by
  have h : setRead partDrained 1 7 = some ([], [⟨1, 1, 12⟩], false) := by decide +kernel
  obtain ⟨s1, s2, s3, hm, hr, -, hret, hset, hread, hempty, hbs⟩ := setRead_run h (by decide) 1 71 130
  exact ⟨s1, s2, s3, hm, hr, hret, hset, hread, hempty, _, hbs, by decide⟩

/-! ## The special list -/

inductive SpecOp
  | report (attr iValue : Int32)
  | read (now : Nat)

/-- The memory, the attributes of the calls that returned 0, and what `ReadAttr` has copied. -/
structure SpecRun where
  mem : MtShm
  written : List Int32
  copied : List AttrNode

/-- `MtReport_Attr_Spec` and `ReadAttr`. -/
def specStep (pid : Nat) (s : SpecRun) : SpecOp → Option SpecRun
  | .report attr iValue =>
    let r := mtReportAttrSpec attr iValue s.mem
    some { s with mem := r.1, written := if r.2 = 0 then s.written ++ [attr] else s.written }
  | .read now =>
    let r := readAttr pid now s.mem
    some { s with mem := r.1, copied := s.copied ++ r.2 }

/-- The list is in its bounds and has no attribute twice, and what `ReadAttr` has copied
was written by calls that returned 0. -/
structure SpecSound (s : SpecRun) : Prop where
  count_le : s.mem.iAttrSpecialCount ≤ specialCount
  nodup : (idsOf s.mem.spec).Nodup
  written : idsOf s.copied ⊆ s.written

/-- The list is not full when an attribute comes that is not in it. -/
def SpecTakes (s : SpecRun) : SpecOp → Prop
  | .report attr iValue => ¬ (attr ≤ 0 ∨ iValue ≤ 0) → attr ∉ idsOf s.mem.spec →
    s.mem.iAttrSpecialCount < specialCount
  | .read _ => True

/-- The tables are empty. -/
def SpecInv (pid : Nat) (s : SpecRun) : Prop :=
  ∃ l, Refines pid s.mem { Store.init with spec := l } ∧ Store.Ok { Store.init with spec := l } ∧
    idsOf s.copied ⊆ s.written ∧ idsOf l ⊆ s.written

section Spec

variable {s s' : SpecRun} {op : SpecOp}

theorem SpecInv.sound (h : SpecInv pid s) : SpecSound s := by
  obtain ⟨l, href, hok, hcopied, -⟩ := h
  refine ⟨?_, ?_, hcopied⟩
  · rw [href.count]
    exact href.room
  · rw [href.spec]
    exact hok.ids

theorem readCells_empty (b : List AttrNode) : ∀ n, readCells (replicate n []) b = (replicate n [], b)
  | 0 => rfl
  | n + 1 => by
    rw [replicate_succ, readCells, Cells.drain, readCells_empty b n]
    simp

/-- With empty tables a batch is a part of the list. -/
theorem read_special (l : List AttrNode) : ∃ l', (Store.read { Store.init with spec := l }).1 =
      { Store.init with spec := l' } ∧
    ((Store.read { Store.init with spec := l }).2 ++ l').Perm l := by
  unfold Store.read
  split
  · exact ⟨_, rfl, Perm.of_eq (take_append_drop _ _)⟩
  · refine ⟨[], ?_⟩
    rw [Store.init, readCells_empty, append_nil]
    exact ⟨rfl, qsort_perm _ _⟩

theorem SpecInv.step (h : SpecInv pid s) (hok : SpecTakes s op)
    (hs : specStep pid s op = some s') : SpecInv pid s' := by
  obtain ⟨l, href, ha, hcopied, hids⟩ := h
  cases op with
  | read now =>
    obtain ⟨t', hr, href'⟩ := href.readAttr now
    obtain ⟨l', hl, hperm⟩ := read_special l
    have hmoved := Subset.trans (hperm.map iAttrID).subset hids
    rw [map_append, append_subset] at hmoved
    cases hs
    rw [hl] at href'
    refine ⟨l', by rw [hr]; exact href', hl ▸ (read_moves ha).1, ?_, hmoved.2⟩
    rw [hr, idsOf, map_append]
    exact append_subset.mpr ⟨hcopied, hmoved.1⟩
  | report attr iValue =>
    cases hs
    by_cases hv : attr ≤ 0 ∨ iValue ≤ 0
    · rw [mtReportAttrSpec, if_pos hv]
      exact ⟨l, href, ha, hcopied, hids⟩
    rcases href.attrSpec attr iValue hv with ⟨l', t', hp, hr, href'⟩ | ⟨hp, -⟩
    · have hw := putSpec_written hp
      rw [hr]
      refine ⟨l', href', ⟨ha.cells, hw.nodup ha.ids, hw.pos (valid_pos hv).1 ha.pos⟩,
        subset_append_of_subset_left _ hcopied, ?_⟩
      rcases hw.ids_perm with he | ⟨-, he⟩
      · exact he ▸ subset_append_of_subset_left _ hids
      · exact he ▸ append_subset.mpr
          ⟨subset_append_of_subset_left _ hids, subset_append_right _ _⟩
    · have hroom := hok hv
      rw [href.spec, href.count] at hroom
      unfold putSpec at hp
      split at hp
      · cases hp
      rename_i hnew
      rw [if_neg (not_le.mpr (hroom (findIdx?_eq_none.mp hnew)))] at hp
      cases hp

end Spec

end DesPwd.L4.AgentAttr
