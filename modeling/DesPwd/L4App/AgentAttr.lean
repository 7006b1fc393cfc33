import DesPwd.Core.BinSearch
import DesPwd.Core.Tally
import DesPwd.L2Machine.SharedHashStore

/-!
# Numeric attributes on the agent

A process reports a value of an attribute with `MtReport_Attr_Add` or
`MtReport_Attr_Set` (language/c_cpp/mt_attr.c). Values are kept in
`MTATTR_SHM_DEF_COUNT` shared hash tables, searched one after the other, and in
a special list for those that no table takes. The agent takes them out in
batches with `ReadAttr` (slog_mtreport_client/mtreport_client.cpp).

One process at a time: the calls are whole steps. The counters of calls
(`dwAttrReportCount`, `dwAttrReportBySpecCount`, `wAttrReportFailed`) and the
plugin's `dwLastReportAttrTime` are left out; no modelled function reads them.

* `Store`: the same with tables as lists of cells, and its operations.
* `Refines.attrPut`, `Refines.readAttr`: the calls do to the shared memory what
  the operations do to the store.
-/
namespace DesPwd.L4.AgentAttr

open L2.SharedHash BinSearch Tally List

/-! ## Data -/

/-- `MTATTR_HASH_NODE` -/
def hashNode : Nat := 2000
/-- `MTATTR_SHM_DEF_COUNT` -/
def shmDefCount : Nat := 5
/-- `MTATTR_SPECIAL_COUNT` -/
def specialCount : Nat := 200
/-- `MAX_ATTR_READ_PER_EACH` -/
def readPerEach : Nat := 120

/-- mirrors `AttrNode` -/
structure AttrNode where
  bSyncProcess : UInt8
  iAttrID : Int32
  iCurValue : Int32
  deriving DecidableEq

instance : Inhabited AttrNode := ⟨⟨0, 0, 0⟩⟩

namespace AttrNode

def setValue (e : AttrNode) (v : Int32) : AttrNode := { e with iCurValue := v }

@[simp] theorem setValue_id (e : AttrNode) (v : Int32) : (e.setValue v).iAttrID = e.iAttrID := rfl

@[simp] theorem setValue_value (e : AttrNode) (v : Int32) : (e.setValue v).iCurValue = v := rfl

end AttrNode

/-- `dwNodeNums` of the attribute tables. -/
def attrNums : List Nat := [1999, 1997, 1993, 1987, 1979, 1973, 1951, 1949, 1933, 1931]

theorem nodeNums_hashNode : nodeNums rowMax hashNode = attrNums := by decide +kernel

/-- The rows that `MtReport_CreateHashTable` computes. -/
def attrRows : Rows where
  dwNodeNums := nodeNums rowMax hashNode
  length_eq := by rw [nodeNums_hashNode]; rfl
  pos := by rw [nodeNums_hashNode]; decide
  fits := by rw [nodeNums_hashNode]; decide

theorem attrRows_nums : attrRows.dwNodeNums = attrNums := nodeNums_hashNode

/-- mirrors language/c_cpp/mt_attr.c:52-57 -/
def mtreportAttrCmp (pKey pNode : AttrNode) : Int := if pKey.iAttrID = pNode.iAttrID then 0 else 1

/-- mirrors slog_mtreport_client/mtreport_client.cpp:955-958 -/
def attrCmp (a b : AttrNode) : Int := (a.iAttrID - b.iAttrID).toInt

/-- The attribute part of the shared memory, with the process's handles of the
tables. `sArrtListSpec` is the memory from the start of the array on. -/
structure MtShm where
  stAttrHash : List (Table AttrNode)
  iAttrSpecialCount : Nat
  sArrtListSpec : Nat → AttrNode

namespace MtShm

/-- The special list. -/
def spec (s : MtShm) : List AttrNode := (List.range s.iAttrSpecialCount).map s.sArrtListSpec

def setSpec (s : MtShm) (i : Nat) (e : AttrNode) : MtShm :=
  { s with sArrtListSpec := Function.update s.sArrtListSpec i e }

/-- Everything stored, in the tables and in the special list. -/
def stored (s : MtShm) : List AttrNode := s.stAttrHash.flatMap Table.entries ++ s.spec

/-- After `MtReport_InitAttr` on new shared memory. -/
def init : MtShm where
  stAttrHash := List.replicate shmDefCount (createHashTable attrRows hashNode mtreportAttrCmp)
  iAttrSpecialCount := 0
  sArrtListSpec := fun _ => default

end MtShm

/-! ## Reporting -/

/-- mirrors mt_attr.c:114-138 -/
def mtReportAttrSpec (attr iValue : Int32) (s : MtShm) : MtShm × Int :=
  if attr ≤ 0 ∨ iValue ≤ 0 then (s, -1)
  else
    match s.spec.findIdx? fun e => e.iAttrID = attr with
    | some i =>
      let e := s.sArrtListSpec i
      (s.setSpec i (e.setValue (e.iCurValue + iValue)), 0)
    | none =>
      let i := s.iAttrSpecialCount
      let s := { s with iAttrSpecialCount := i + 1 }
      if specialCount ≤ i then (s, -1)
      else (s.setSpec i { s.sArrtListSpec i with iAttrID := attr, iCurValue := iValue }, 0)

/-- How the loop over the tables ends: the value is in a table, no table took it,
or `bCheckCount > 10`. -/
inductive LoopEnd
  | stored
  | notStored
  | tooMany
  deriving DecidableEq

/-- `stRecord`, which has only its id set. -/
def stRecord (attr : Int32) : AttrNode := { bSyncProcess := 0, iAttrID := attr, iCurValue := 0 }

/-- `dwShortKey` of an attribute. -/
def shortKey (attr : Int32) : Nat := attr.toUInt32.toNat

/-! `MtReport_Attr_Add` and `MtReport_Attr_Set` differ in what they do to the value
of a found node, `upd`. -/

section Put

variable (upd : Int32 → Int32) (attr iValue : Int32) (pid now : Nat)

/-- The loop over the tables from the `j`-th on.
mirrors mt_attr.c:160-193 and 219-252 -/
def attrLoop : Nat → List (Table AttrNode) → List (Table AttrNode) × LoopEnd
  | bCheckCount, [] => ([], if 10 < bCheckCount then .tooMany else .notStored)
  | bCheckCount, t :: ts =>
    if 10 < bCheckCount then (t :: ts, .tooMany)
    else
      match t.hashTableSearchEx (stRecord attr) (shortKey attr) with
      | (some i, true) =>
        let pNode := (t.node i).data
        (t.setData i (pNode.setValue (upd pNode.iCurValue)) :: ts, .stored)
      | (some i, false) =>
        let pNode := (t.node i).data
        -- VARMEM_CAS_GET
        if pNode.bSyncProcess = 0 then
          (((t.setData i ⟨1, attr, iValue⟩).insertHashNode i pid now).1 :: ts, .stored)
        else if 10 ≤ pNode.bSyncProcess then
          (((t.setData i ⟨pNode.bSyncProcess, attr, iValue⟩).insertHashNode i pid now).1 :: ts,
            .stored)
        else
          let r := attrLoop (bCheckCount + 1) ts
          (t.setData i { pNode with bSyncProcess := pNode.bSyncProcess + 1 } :: r.1, r.2)
      | (none, _) =>
        let r := attrLoop bCheckCount ts
        (t :: r.1, r.2)

/-- mirrors mt_attr.c:140-197 and 199-256 -/
def attrPut (s : MtShm) : MtShm × Int :=
  if attr ≤ 0 ∨ iValue ≤ 0 then (s, -1)
  else
    let r := attrLoop upd attr iValue pid now 0 s.stAttrHash
    let s := { s with stAttrHash := r.1 }
    match r.2 with
    | .stored => (s, 0)
    | .notStored => mtReportAttrSpec attr iValue s
    | .tooMany => ((mtReportAttrSpec 238 1 s).1, -2)

end Put

def mtReportAttrAdd (attr iValue : Int32) (pid now : Nat) (s : MtShm) : MtShm × Int :=
  attrPut (fun v => v + iValue) attr iValue pid now s

def mtReportAttrSet (attr iValue : Int32) (pid now : Nat) (s : MtShm) : MtShm × Int :=
  attrPut (fun _ => iValue) attr iValue pid now s

/-! ## Reading -/

def batchFull (b : List AttrNode) : Bool := decide (readPerEach ≤ b.length)

/-- A node's value joins the batch.
mirrors mtreport_client.cpp:1110-1118 -/
def batchTake (b : List AttrNode) (pNode : AttrNode) : List AttrNode :=
  match bsearch (attrCmp pNode) b with
  | some i => b.modify i fun e => e.setValue (e.iCurValue + pNode.iCurValue)
  | none => if 0 < pNode.iCurValue then qsort attrCmp (b ++ [pNode]) else b

/-- The loop over the tables.
mirrors mtreport_client.cpp:1082-1144 -/
def readTables (pid now : Nat) :
    List (Table AttrNode) → List AttrNode → List (Table AttrNode) × List AttrNode
  | [], b => ([], b)
  | t :: ts, b =>
    let r := t.drainTable batchFull batchTake pid now (hashNode * rowMax) b
    if readPerEach ≤ r.2.length then (r.1 :: ts, r.2)
    else
      let r' := readTables pid now ts r.2
      (r.1 :: r'.1, r'.2)

/-- `ReadAttr` with `wReadAttrCount` 0 before it.
mirrors mtreport_client.cpp:1057-1145 -/
def readAttr (pid now : Nat) (s : MtShm) : MtShm × List AttrNode :=
  if readPerEach < s.iAttrSpecialCount then
    ({ s with
        iAttrSpecialCount := s.iAttrSpecialCount - readPerEach
        sArrtListSpec := fun i =>
          if i < s.iAttrSpecialCount - readPerEach then s.sArrtListSpec (i + readPerEach)
          else s.sArrtListSpec i },
      s.spec.take readPerEach)
  else
    -- without special entries the batch starts empty
    let r := readTables pid now s.stAttrHash (qsort attrCmp s.spec)
    ({ s with stAttrHash := r.1, iAttrSpecialCount := 0 }, r.2)

/-! ## The store -/

/-- What is stored: the cells of the tables and the special list. -/
structure Store where
  tables : List (Cells AttrNode)
  spec : List AttrNode
  deriving DecidableEq

/-- The slots of an attribute. -/
def slotsOf (attr : Int32) : List Nat := Table.slotsFrom (shortKey attr) 0 attrNums

/-- `HashTableSearchEx` in the cells of a table. -/
def searchCells (attr : Int32) (c : Cells AttrNode) : Option Nat × Bool :=
  c.search (slotsOf attr) fun d => mtreportAttrCmp (stRecord attr) d == 0

/-- One table of the loop; `none` when it does not take the value. -/
def putCells (upd : Int32 → Int32) (attr iValue : Int32) (c : Cells AttrNode) :
    Option (Cells AttrNode) :=
  match searchCells attr c with
  | (some i, true) => (c.lookup i).map fun d => c.set i (d.setValue (upd d.iCurValue))
  | (some i, false) => some (c ++ [(i, ⟨1, attr, iValue⟩)])
  | (none, _) => none

def putTables (upd : Int32 → Int32) (attr iValue : Int32) :
    List (Cells AttrNode) → Option (List (Cells AttrNode))
  | [] => none
  | c :: cs =>
    match putCells upd attr iValue c with
    | some c' => some (c' :: cs)
    | none => (putTables upd attr iValue cs).map (c :: ·)

def putSpec (attr iValue : Int32) (l : List AttrNode) : Option (List AttrNode) :=
  match l.findIdx? fun e => e.iAttrID = attr with
  | some i => some (l.modify i fun e => e.setValue (e.iCurValue + iValue))
  | none => if specialCount ≤ l.length then none else some (l ++ [⟨0, attr, iValue⟩])

def readCells : List (Cells AttrNode) → List AttrNode → List (Cells AttrNode) × List AttrNode
  | [], b => ([], b)
  | c :: cs, b =>
    let r := c.drain batchFull batchTake b
    if readPerEach ≤ r.2.length then (r.1 :: cs, r.2)
    else
      let r' := readCells cs r.2
      (r.1 :: r'.1, r'.2)

namespace Store

def init : Store := ⟨List.replicate shmDefCount [], []⟩

/-- Everything stored. -/
def entries (a : Store) : List AttrNode := a.tables.flatMap Cells.vals ++ a.spec

/-- A call with valid arguments; `none` when the special list is full. -/
def put (upd : Int32 → Int32) (attr iValue : Int32) (a : Store) : Option Store :=
  match putTables upd attr iValue a.tables with
  | some cs => some { a with tables := cs }
  | none => (putSpec attr iValue a.spec).map fun l => { a with spec := l }

def read (a : Store) : Store × List AttrNode :=
  if readPerEach < a.spec.length then
    ({ a with spec := a.spec.drop readPerEach }, a.spec.take readPerEach)
  else
    let r := readCells a.tables (qsort attrCmp a.spec)
    (⟨r.1, []⟩, r.2)

end Store

/-! ## The shared memory refines the store -/

/-- The tables hold the cells, the array holds the special list, and the array's
`bSyncProcess` are 0. -/
structure Refines (pid : Nat) (s : MtShm) (a : Store) : Prop where
  tables : List.Forall₂ (Holds attrRows mtreportAttrCmp pid) s.stAttrHash a.tables
  spec : s.spec = a.spec
  room : a.spec.length ≤ specialCount
  sync : ∀ i, i < specialCount → (s.sArrtListSpec i).bSyncProcess = 0

section Sim

variable (upd : Int32 → Int32) (attr iValue : Int32) {pid : Nat} (now : Nat)

theorem attrLoop_cons {t : Table AttrNode} {c : Cells AttrNode}
    (h : Holds attrRows mtreportAttrCmp pid t c) (ts : List (Table AttrNode)) :
    (∃ c' t', putCells upd attr iValue c = some c' ∧ Holds attrRows mtreportAttrCmp pid t' c' ∧
      attrLoop upd attr iValue pid now 0 (t :: ts) = (t' :: ts, .stored)) ∨
    (putCells upd attr iValue c = none ∧ attrLoop upd attr iValue pid now 0 (t :: ts) =
        (t :: (attrLoop upd attr iValue pid now 0 ts).1,
          (attrLoop upd attr iValue pid now 0 ts).2)) := by
  have hsearch : t.hashTableSearchEx (stRecord attr) (shortKey attr) = searchCells attr c := by
    rw [h.searchEx_eq]
    rfl
  unfold putCells
  rw [attrLoop, hsearch, if_neg (by decide)]
  split
  · rename_i i hs
    left
    obtain ⟨d, hl, -⟩ := Cells.search_found hs
    rw [h.data_lookup hl, hl]
    exact ⟨_, _, rfl, h.setCell hl _, rfl⟩
  · rename_i i hs
    left
    obtain ⟨hi, hic, hzero⟩ := h.search_free (hsearch.trans hs)
    -- an unused node is zero, so that the CAS succeeds
    rw [if_pos (by rw [hzero]; rfl)]
    exact ⟨_, _, rfl, h.insertCell hi hic _ now, rfl⟩
  · exact .inr ⟨rfl, rfl⟩

variable {ts : List (Table AttrNode)} {cs : List (Cells AttrNode)}

theorem attrLoop_sim (h : List.Forall₂ (Holds attrRows mtreportAttrCmp pid) ts cs) :
    (∃ cs' ts', putTables upd attr iValue cs = some cs' ∧
      List.Forall₂ (Holds attrRows mtreportAttrCmp pid) ts' cs' ∧
      attrLoop upd attr iValue pid now 0 ts = (ts', .stored)) ∨
    (putTables upd attr iValue cs = none ∧
      attrLoop upd attr iValue pid now 0 ts = (ts, .notStored)) := by
  induction h with
  | nil => exact .inr ⟨rfl, rfl⟩
  | @cons t c ts cs ht hts ih =>
    unfold putTables
    rcases attrLoop_cons upd attr iValue now ht ts with ⟨c', t', hc, ht', hl⟩ | ⟨hc, hl⟩
    · rw [hc, hl]
      exact .inl ⟨_, _, rfl, .cons ht' hts, rfl⟩
    rw [hc, hl]
    rcases ih with ⟨cs', ts', hp, hts', hl'⟩ | ⟨hp, hl'⟩
    · rw [hp, hl']
      exact .inl ⟨_, _, rfl, .cons ht hts', rfl⟩
    · rw [hp, hl']
      exact .inr ⟨rfl, rfl⟩

theorem spec_length {s : MtShm} : s.spec.length = s.iAttrSpecialCount := by simp [MtShm.spec]

theorem spec_setSpec (s : MtShm) (i : Nat) (f : AttrNode → AttrNode) :
    (s.setSpec i (f (s.sArrtListSpec i))).spec = s.spec.modify i f := by
  apply ext_getElem?
  intro j
  rw [getElem?_modify]
  unfold MtShm.spec MtShm.setSpec
  simp only [getElem?_map]
  by_cases hj : j < s.iAttrSpecialCount
  · rw [getElem?_range hj]
    by_cases hij : i = j <;> simp [hij, eq_comm]
  · rw [getElem?_eq_none (by simpa using hj)]
    rfl

theorem spec_push (s : MtShm) (e : AttrNode) :
    ({ s with iAttrSpecialCount := s.iAttrSpecialCount + 1 }.setSpec s.iAttrSpecialCount e).spec =
      s.spec ++ [e] := by
  unfold MtShm.spec MtShm.setSpec
  dsimp only
  rw [range_succ, map_append, map_singleton, Function.update_self]
  congr 1
  apply map_congr_left
  intro i hi
  rw [Function.update_of_ne (ne_of_lt (mem_range.mp hi))]

theorem spec_shift (s : MtShm) (n : Nat) : MtShm.spec { s with
        iAttrSpecialCount := s.iAttrSpecialCount - n
        sArrtListSpec := fun i =>
          if i < s.iAttrSpecialCount - n then s.sArrtListSpec (i + n) else s.sArrtListSpec i } =
      s.spec.drop n := by
  apply ext_getElem?
  intro i
  rw [getElem?_drop]
  unfold MtShm.spec
  simp only [getElem?_map]
  by_cases hi : i < s.iAttrSpecialCount - n
  · rw [getElem?_range hi, getElem?_range (by omega)]
    simp [hi, add_comm]
  · rw [getElem?_eq_none (by simpa using hi), getElem?_eq_none (by rw [length_range]; omega)]
    rfl

section

variable (h : List.Forall₂ (Holds attrRows mtreportAttrCmp pid) ts cs)
include h

omit h in
theorem length_le_nodes {K : Type} [Inhabited K] {cmp : K → K → Int} {t : Table K} {c : Cells K}
    (h : Holds attrRows cmp pid t c) : c.length ≤ hashNode * rowMax := by
  have hle := h.length_le
  rw [Table.real, h.rows_eq] at hle
  exact le_trans hle (by decide)

theorem readTables_sim : ∀ b, ∃ ts', readTables pid now ts b = (ts', (readCells cs b).2) ∧
      List.Forall₂ (Holds attrRows mtreportAttrCmp pid) ts' (readCells cs b).1 := by
  induction h with
  | nil => exact fun b => ⟨[], rfl, .nil⟩
  | @cons t c ts cs ht hts ih =>
    intro b
    obtain ⟨t', hd, ht'⟩ := ht.drainTable batchFull batchTake now (length_le_nodes ht) b
    unfold readTables readCells
    rw [hd]
    dsimp only
    split
    · exact ⟨_, rfl, .cons ht' hts⟩
    · obtain ⟨ts', hr, hts'⟩ := ih (c.drain batchFull batchTake b).2
      rw [hr]
      exact ⟨_, rfl, .cons ht' hts'⟩

theorem tables_entries : (ts.flatMap Table.entries).Perm (cs.flatMap Cells.vals) := by
  induction h with
  | nil => exact .nil
  | cons ht _ ih => exact ht.entries_perm.append ih

end

namespace Refines

variable {s : MtShm} {a : Store}

theorem init : Refines pid MtShm.init Store.init where
  tables :=
    have h := holds_create attrRows hashNode mtreportAttrCmp pid
    .cons h (.cons h (.cons h (.cons h (.cons h .nil))))
  spec := rfl
  room := Nat.zero_le _
  sync _ _ := rfl

variable (h : Refines pid s a)
include h

theorem stored_perm : s.stored.Perm a.entries := by
  unfold MtShm.stored Store.entries
  rw [h.spec]
  exact (tables_entries h.tables).append_right _

theorem count : s.iAttrSpecialCount = a.spec.length := by
  rw [← h.spec, spec_length]

/-- `MtReport_Attr_Spec`: the value is in the list, or the list is full. -/
theorem attrSpec (hv : ¬ (attr ≤ 0 ∨ iValue ≤ 0)) :
    (∃ l s', putSpec attr iValue a.spec = some l ∧ mtReportAttrSpec attr iValue s = (s', 0) ∧
      Refines pid s' { a with spec := l }) ∨
    (putSpec attr iValue a.spec = none ∧ (mtReportAttrSpec attr iValue s).2 = -1) := by
  unfold mtReportAttrSpec putSpec
  rw [if_neg hv, h.spec]
  cases hf : a.spec.findIdx? fun e => e.iAttrID = attr with
  | some i =>
    left
    refine ⟨_, _, rfl, rfl, h.tables, ?_, ?_, fun j hj => ?_⟩
    · rw [← h.spec]
      exact spec_setSpec s i fun e => e.setValue (e.iCurValue + iValue)
    · rw [length_modify]
      exact h.room
    have hsync := h.sync j hj
    by_cases hij : j = i
    · subst hij
      simpa [MtShm.setSpec, AttrNode.setValue] using hsync
    · simpa [MtShm.setSpec, hij] using hsync
  | none =>
    dsimp only
    rw [← h.count]
    split
    · exact .inr ⟨rfl, rfl⟩
    rename_i hroom
    have hlt : s.iAttrSpecialCount < specialCount := not_le.mp hroom
    left
    refine ⟨_, _, rfl, rfl, h.tables, ?_, ?_, fun j hj => ?_⟩
    · rw [spec_push, h.spec, h.sync _ hlt]
    · rw [length_append, ← h.count]
      exact hlt
    have hsync := h.sync j hj
    by_cases hij : j = s.iAttrSpecialCount
    · subst hij
      simpa [MtShm.setSpec] using hsync
    · simpa [MtShm.setSpec, hij] using hsync

theorem attrPut (hv : ¬ (attr ≤ 0 ∨ iValue ≤ 0)) : (∃ a' s', a.put upd attr iValue = some a' ∧
      AgentAttr.attrPut upd attr iValue pid now s = (s', 0) ∧ Refines pid s' a') ∨
    (a.put upd attr iValue = none ∧ (AgentAttr.attrPut upd attr iValue pid now s).2 = -1) := by
  unfold AgentAttr.attrPut Store.put
  rw [if_neg hv]
  rcases attrLoop_sim upd attr iValue now h.tables with ⟨cs', ts', hp, hts', hl⟩ | ⟨hp, hl⟩
  · rw [hp, hl]
    exact .inl ⟨_, _, rfl, rfl, hts', h.spec, h.room, h.sync⟩
  rw [hp, hl]
  rcases h.attrSpec attr iValue hv with ⟨l, s', hl, hs, h'⟩ | ⟨hl, hs⟩
  · rw [hl]
    exact .inl ⟨_, _, rfl, hs, h'⟩
  · rw [hl]
    exact .inr ⟨rfl, hs⟩

theorem readAttr :
    ∃ s', AgentAttr.readAttr pid now s = (s', a.read.2) ∧ Refines pid s' a.read.1 := by
  unfold AgentAttr.readAttr Store.read
  rw [← h.spec, spec_length]
  split
  · have hroom := h.room
    rw [← h.count] at hroom
    refine ⟨_, rfl, h.tables, spec_shift s readPerEach, ?_, fun i hi => ?_⟩
    · rw [length_drop, spec_length]
      exact le_trans (Nat.sub_le _ _) hroom
    · dsimp only
      split
      · exact h.sync _ (by omega)
      · exact h.sync i hi
  · obtain ⟨ts', hr, hts'⟩ := readTables_sim now h.tables (qsort attrCmp s.spec)
    rw [hr]
    exact ⟨_, rfl, hts', rfl, Nat.zero_le _, h.sync⟩

end Refines

end Sim

end DesPwd.L4.AgentAttr
