import DesPwd.L2Machine.ILink
import DesPwd.L2Machine.NoListHash

/-!
# slog_config: the attribute table

`ReadTableAttr` brings the rows of the database table `mt_attr` into shared
memory. An attribute in use is in two lists: the one of all attributes, headed by
`MtSystemConfig`, and the one of its type, headed by the `AttrTypeInfo`.
`readRow` is the body of the loop over the rows.

Names, the warn configuration and the SQL of deleted rows are left out.

* `type_lists_iff`: from the zeroed table, the lists of all types are right after
  each row if and only if no row is in use. The first attribute of a type is
  inserted in front of node 0 instead of as the only one, since
  `wAttrCount < 0` never holds of an unsigned count.
* `type_list_broken`: one attribute, and the end of its type's list is wrong.
-/
namespace DesPwd.L4.AttrTable

open L2.ILink L2.SharedHash L2.NoListHash

/-- mirrors `AttrInfoBin`, lib/mtagent_api_open/supper_log.h:1177-1216; the links
are in `Shm` -/
structure AttrInfoBin where
  id : Int
  iAttrType : Int
  dwLastModTime : Nat

/-- mirrors `AttrTypeInfo`, supper_log.h:1220-1243 -/
structure AttrTypeInfo where
  /-- `iAttrIndexStart` and `iAttrIndexEnd` -/
  list : Head
  wAttrCount : Nat

structure Shm where
  rows : Rows
  attr : Int → AttrInfoBin
  /-- `iPreIndex`, `iNextIndex` -/
  links : Links
  /-- `iAttrTypePreIndex`, `iAttrTypeNextIndex` -/
  typeLinks : Links
  /-- `iAttrIndexStart`, `iAttrIndexEnd` and `wAttrCount` of `MtSystemConfig` -/
  list : Head
  wAttrCount : Nat
  /-- `slog.GetAttrTypeInfo` -/
  types : Int → Option AttrTypeInfo

/-- `xrk_status`; `use` is `RECORD_STATUS_USE`, `delete` is
`RECORD_STATUS_DELETE`. -/
inductive Status where
  | use
  | delete
  | other
  deriving DecidableEq

/-- A row of `mt_attr`; ids count from 1. -/
structure Row where
  iAttrId : Int
  pos : 0 < iAttrId
  iStatus : Status
  dwLastModTime : Nat
  iAttrType : Int

/-- `slog.GetAttrInfo(iAttrId, &dwIsFind)` -/
def getAttrInfo (s : Shm) (iAttrId : Int) : Option (Nat × Bool) :=
  hashTableSearchEx s.rows (fun i => (s.attr i).id = iAttrId) (fun i => (s.attr i).id = 0)
    (iAttrId % 4294967296).toNat

def Shm.setType (s : Shm) (t : Int) (e : AttrTypeInfo) : Shm :=
  { s with types := Function.update s.types t (some e) }

/-- A `uint16_t` count that loses one. -/
def dec16 (n : Nat) : Nat := (n + 65535) % 65536

/-- The test `wAttrCount < 0` of the source is of a `uint16_t`, so only its else
branch is left. mirrors slog_config/slog_config.cpp:1910-1927 and 1952-1969 -/
def typeInsert (s : Shm) (t i : Int) : Shm :=
  match s.types t with
  | none => s
  | some e =>
    let (list, links) := insertFirst e.list s.typeLinks e.list.s i
    { s with typeLinks := links }.setType t ⟨list, (e.wAttrCount + 1) % 65536⟩

/-- mirrors slog_config.cpp:1936-1949 and 2017-2027 -/
def typeDelete (s : Shm) (t i : Int) : Shm :=
  match s.types t with
  | none => s
  | some e =>
    let (list, links) := deleteNode e.list s.typeLinks i (ptr (s.typeLinks.p i))
      (ptr (s.typeLinks.n i))
    { s with typeLinks := links }.setType t ⟨list, dec16 e.wAttrCount⟩

/-- mirrors slog_config.cpp:1882-1893 -/
def linkAttr (s : Shm) (i : Int) : Shm :=
  if s.wAttrCount = 0 then
    let (list, links) := setFirst s.links i
    { s with list := list, links := links, wAttrCount := 1 }
  else
    let (list, links) := insertFirst s.list s.links s.list.s i
    { s with list := list, links := links, wAttrCount := (s.wAttrCount + 1) % 65536 }

/-- mirrors slog_config.cpp:1873-1931 -/
def addAttr (s : Shm) (r : Row) (i : Int) : Shm :=
  let s := linkAttr s i
  typeInsert { s with attr := Function.update s.attr i ⟨r.iAttrId, r.iAttrType, r.dwLastModTime⟩ }
    r.iAttrType i

/-- mirrors slog_config.cpp:1932-1995 -/
def changeAttr (s : Shm) (r : Row) (i : Int) : Shm :=
  let s := if (s.attr i).iAttrType ≠ r.iAttrType then
      typeInsert (typeDelete s (s.attr i).iAttrType i) r.iAttrType i
    else s
  let a := { s.attr i with iAttrType := r.iAttrType, dwLastModTime := r.dwLastModTime }
  { s with attr := Function.update s.attr i a }

/-- The attribute leaves the list of the row's type, which need not be its own;
mirrors slog_config.cpp:1997-2029 -/
def deleteAttr (s : Shm) (r : Row) (i : Int) : Shm :=
  let (list, links) := deleteNode s.list s.links i (ptr (s.links.p i)) (ptr (s.links.n i))
  typeDelete { s with
      attr := Function.update s.attr i { s.attr i with id := 0 }
      list := list
      links := links
      wAttrCount := dec16 s.wAttrCount } r.iAttrType i

/-- A row in use whose type is gone counts as deleted;
mirrors slog_config.cpp:1821-1828 -/
def rowStatus (s : Shm) (r : Row) : Status :=
  if r.iStatus = .use ∧ (s.types r.iAttrType).isNone then .delete else r.iStatus

/-- mirrors slog_config.cpp:1809-2029 -/
def readRow (s : Shm) (r : Row) : Shm :=
  match getAttrInfo s r.iAttrId with
  | none => s
  | some (i, false) => if rowStatus s r = .use then addAttr s r i else s
  | some (i, true) =>
    if rowStatus s r ≠ .use then deleteAttr s r i
    else if (s.attr i).dwLastModTime ≠ r.dwLastModTime then changeAttr s r i
    else s

/-- The zeroed table with the types `types`, which have no attributes yet. -/
def init (rows : Rows) (types : Int → Bool) : Shm where
  rows := rows
  attr := fun _ => ⟨0, 0, 0⟩
  links := ⟨fun _ => 0, fun _ => 0⟩
  typeLinks := ⟨fun _ => 0, fun _ => 0⟩
  list := ⟨0, 0⟩
  wAttrCount := 0
  types := fun t => if types t then some ⟨⟨0, 0⟩, 0⟩ else none

/-! ## The lists of the types -/

/-- The list of type `t` holds exactly the attributes in use of that type. -/
def TypeListOk (s : Shm) (t : Int) (e : AttrTypeInfo) : Prop :=
  ∃ l, Counted e.list s.typeLinks e.wAttrCount l ∧
    ∀ i, i ∈ l ↔ (0 ≤ i ∧ i < s.rows.dwNodeNums.sum) ∧ (s.attr i).id ≠ 0 ∧ (s.attr i).iAttrType = t

def TypeListsOk (s : Shm) : Prop := ∀ t e, s.types t = some e → TypeListOk s t e

/-- The lists are right after each row. -/
def OkAfterEach : Shm → List Row → Prop
  | _, [] => True
  | s, r :: rs => TypeListsOk (readRow s r) ∧ OkAfterEach (readRow s r) rs

section
variable {rows : Rows} {types : Int → Bool} {r : Row} {i : Nat}

theorem typeListsOk_init : TypeListsOk (init rows types) := by
  intro t e he
  refine ⟨[], ⟨?_, fun h => absurd rfl h⟩, fun i => ?_⟩
  · simp only [init] at he
    split at he
    · cases he
      rfl
    · cases he
  · simp [init]

/-- No row finds its attribute in the zeroed table, and there is room for it. -/
theorem getAttrInfo_init (rows : Rows) (types : Int → Bool) (r : Row) :
    ∃ i, getAttrInfo (init rows types) r.iAttrId = some (i, false) := by
  refine hashTableSearchEx_empty rows _ (fun i => decide_eq_false fun h => ?_) fun i => rfl
  exact Int.ne_of_lt r.pos h

/-- A row that is not in use does nothing to the zeroed table. -/
theorem readRow_init (h : ¬ (r.iStatus = .use ∧ types r.iAttrType = true)) :
    readRow (init rows types) r = init rows types := by
  obtain ⟨i, hi⟩ := getAttrInfo_init rows types r
  have hstatus : rowStatus (init rows types) r ≠ .use := by
    unfold rowStatus
    split
    · exact Status.noConfusion
    rename_i hn
    intro hu
    refine hn ⟨hu, ?_⟩
    have ht : types r.iAttrType = false := by simpa using fun ht => h ⟨hu, ht⟩
    simp [init, ht]
  rw [readRow, hi]
  exact if_neg hstatus

/-- The type's entry and the node after the first attribute. -/
theorem addAttr_init (rows : Rows) (ht : types r.iAttrType = true) (i : Int) :
    (addAttr (init rows types) r i).types r.iAttrType = some ⟨⟨i, 0⟩, 1⟩ ∧
      (addAttr (init rows types) r i).typeLinks.n i = 0 := by
  have htype : (init rows types).types r.iAttrType = some ⟨⟨0, 0⟩, 0⟩ := if_pos ht
  have hs : (linkAttr (init rows types) i).types = (init rows types).types := rfl
  unfold addAttr typeInsert
  simp only [hs, htype]
  exact ⟨Function.update_self _ _ _, Function.update_self _ _ _⟩

/-- The first attribute breaks the list of its type. -/
theorem readRow_init_broken (hu : r.iStatus = .use) (ht : types r.iAttrType = true) :
    ¬ TypeListsOk (readRow (init rows types) r) := by
  obtain ⟨i, hi⟩ := getAttrInfo_init rows types r
  have htype : (init rows types).types r.iAttrType = some ⟨⟨0, 0⟩, 0⟩ := if_pos ht
  have hstatus : rowStatus (init rows types) r = .use := by
    rw [rowStatus, if_neg (by rw [htype]; exact fun h => Bool.false_ne_true h.2)]
    exact hu
  intro hok
  rw [readRow, hi] at hok
  dsimp only at hok
  rw [if_pos hstatus] at hok
  obtain ⟨htypes, hn⟩ := addAttr_init rows ht i
  obtain ⟨l, hl, -⟩ := hok _ _ htypes
  -- the only node of the list would have to end it
  obtain ⟨x, rfl⟩ := List.length_eq_one_iff.mp hl.count_eq.symm
  have hlist := hl.isList (List.cons_ne_nil x [])
  obtain rfl : (i : Int) = x := hlist.start_eq
  have hlist' : IsList _ _ ([] ++ (i : Int) :: []) := hlist
  have hend := hlist'.n_eq
  rw [hn] at hend
  exact absurd hend (by decide)

end

/-- **The lists of the types.** They are right after each row exactly when no row
is in use. -/
theorem type_lists_iff (rows : Rows) (types : Int → Bool) (rs : List Row) :
    OkAfterEach (init rows types) rs ↔
      ∀ r ∈ rs, ¬ (r.iStatus = .use ∧ types r.iAttrType = true) := by
  induction rs with
  | nil => exact iff_of_true trivial fun _ h => (by cases h)
  | cons r rs ih =>
    rw [OkAfterEach, List.forall_mem_cons]
    by_cases hr : r.iStatus = .use ∧ types r.iAttrType = true
    · exact iff_of_false (fun h => readRow_init_broken hr.1 hr.2 h.1) fun h => h.1 hr
    · rw [readRow_init hr, ih]
      exact ⟨fun h => ⟨hr, h.2⟩, fun h => ⟨typeListsOk_init, h.2⟩⟩

/-- One attribute of type 1: it is at the front of its type's list, whose end is
node 0. -/
theorem type_list_broken :
    ¬ OkAfterEach (init ⟨List.replicate 10 7, by decide, by decide, by decide⟩ (· = 1))
      [⟨5, by decide, .use, 0, 1⟩] := by
  intro h
  exact readRow_init_broken rfl rfl h.1

end DesPwd.L4.AttrTable
