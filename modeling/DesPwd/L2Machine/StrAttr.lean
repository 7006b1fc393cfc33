import DesPwd.Core.Bytes
import DesPwd.Core.Links
import DesPwd.Core.Run
import DesPwd.Core.Totals

/-!
# The nodes of string attributes

slog_monitor_server counts the values of a string attribute per string. The
strings of all attributes and machines are in one array of nodes in shared
memory; those of one entry (an attribute of a machine) are chained by
`iNextStrAttr` from the entry's `iReportIdx`. A node whose `iStrVal` is not
positive is free (slog_monitor_server/udp_sock.cpp).

Entries are a list here, with one for each key. `none` is a read that is not
defined, or a walk that does not end.

* `Change.trans`: what a step does to the nodes of one entry, and that the steps
  of a call compose.
* `Chains.replace`: a change of one entry's nodes keeps the chains of the others.
* `str_attr_pool`: chains are disjoint, counted and in use after every run in
  which values stay below 2^31 and node 0 is not in a chain that is thinned out.
* `str_attr_pool_broken`: one value of 2^31; and 29 strings of one attribute.
-/
namespace DesPwd.L2.StrAttr

open List

open Bytes Links Run Totals
open Function (update update_self update_of_ne)

/-! ## Data -/

/-- `MAX_STR_ATTR_ARRY_NODE_VAL_COUNT` -/
def maxNodes : Nat := 15000
/-- `MAX_STR_ATTR_STR_COUNT` -/
def maxStrCount : Nat := 20
/-- `STR_ATTR_COUNT_FOR_SELECT_STR` -/
def selectCount : Nat := 8

/-- mirrors `StrAttrNodeVal` -/
structure Node where
  szStrInfo : Bytes
  iStrVal : Int32
  iNextStrAttr : Int
  deriving DecidableEq

/-- mirrors `StrAttrNodeValShmInfo` -/
structure Pool where
  iNodeUse : Int
  iWriteIdx : Int
  stInfo : Int → Node

/-- mirrors `TStrAttrReportInfo` -/
structure Entry where
  iAttrId : Int
  iMachineId : Int
  bAttrDataType : UInt8
  dwLastReportTime : UInt32
  bStrCount : Nat
  iReportIdx : Int
  bLastReportDayOfMonth : Nat
  deriving DecidableEq

def Entry.key (e : Entry) : Int × Int := (e.iAttrId, e.iMachineId)

/-- The index of a node in the array. -/
def InRange (idx : Int) : Prop := 0 ≤ idx ∧ idx < maxNodes

instance (idx : Int) : Decidable (InRange idx) := by
  unfold InRange
  infer_instance

def nextOf (f : Int → Node) (i : Int) : Int := (f i).iNextStrAttr

/-! ## CheckClearStrAttrNodeShm -/

/-- The last report is a day old or of another day of the month. -/
def Entry.stale (e : Entry) (now mday : Nat) : Bool :=
  (e.dwLastReportTime + 86400).toNat < now || e.bLastReportDayOfMonth != mday

def markFree (n : Node) : Node := { n with iStrVal := -1 }

/-- mirrors udp_sock.cpp:1648-1652 -/
def clearFrom : Nat → Int → (Int → Node) → Option (Int → Node)
  | 0, _, _ => none
  | fuel + 1, idx, f =>
    if InRange idx then
      clearFrom fuel (nextOf f idx) (update f idx (markFree (f idx)))
    else some f

/-- mirrors udp_sock.cpp:1630-1656 -/
def checkClear (now mday : Nat) (e : Entry) (p : Pool) : Option (Entry × Pool) :=
  if e.stale now mday then
    if e.bStrCount = 0 then some (e, p)
    else do
      let f ← clearFrom (maxNodes + 1) e.iReportIdx p.stInfo
      pure ({ e with bStrCount := 0, iReportIdx := -1 },
        { p with iNodeUse := p.iNodeUse - e.bStrCount, stInfo := f })
  else some (e, p)

/-! ## AddStrAttrReportToShm -/

inductive Search where
  | invalid
  | hit (idx : Int)
  | miss (iLastIdx : Int)
  deriving DecidableEq

/-- The search for the string, over `n` nodes from `idx`;
mirrors udp_sock.cpp:1694-1719 -/
def search (f : Int → Node) (str : Bytes) : Nat → Int → Search
  | 0, _ => .miss (-1)
  | n + 1, idx =>
    if InRange idx then
      if (f idx).szStrInfo = str then .hit idx
      else if n = 0 then .miss idx
      else search f str n (nextOf f idx)
    else .invalid

/-- The nodes of an entry with their values. An index of 0 ends the loop.
mirrors udp_sock.cpp:1726-1731 -/
def collect (f : Int → Node) : Nat → Int → List (Int32 × Int)
  | 0, _ => []
  | n + 1, idx =>
    if 0 < idx ∧ idx < maxNodes then
      ((f idx).iStrVal, idx) :: collect f n (nextOf f idx)
    else []

/-- A `std::multimap<int, int>`: equal keys are in the order of their insertion. -/
def byVal (l : List (Int32 × Int)) : List Int :=
  (l.insertionSort fun a b => a.1 ≤ b.1).map Prod.snd

/-- mirrors udp_sock.cpp:1734-1743 -/
def release : List Int → (Int → Node) → Int → Node
  | [], f => f
  | i :: l, f => release l (update f i { f i with iStrVal := -1, iNextStrAttr := -1 })

/-- mirrors udp_sock.cpp:1748-1758 -/
def relink : Int → List Int → (Int → Node) → Int → Node
  | i, [], f => update f i { f i with iNextStrAttr := -1 }
  | i, j :: l, f => relink j l (update f i { f i with iNextStrAttr := j })

/-- The nodes with the smallest values are freed, the others are chained again
in the order of their values. `none` is the access behind the last element of
the map. Also returns the index of the last node.
mirrors udp_sock.cpp:1724-1759 -/
def evict (e : Entry) (p : Pool) : Option (Entry × Pool × Int) :=
  let m := byVal (collect p.stInfo e.bStrCount e.iReportIdx)
  match m.drop selectCount with
  | [] => none
  | i :: l => some
      ({ e with iReportIdx := i, bStrCount := e.bStrCount - selectCount }, { p with
          iNodeUse := p.iNodeUse - selectCount
          stInfo := relink i l (release (m.take selectCount) p.stInfo) },
        l.getLastD i)

def nextWrite (w : Int) : Int := if maxNodes ≤ w + 1 then 0 else w + 1

/-- The free node that the write index finds, and the index after it;
mirrors udp_sock.cpp:1762-1768 -/
def findFree (f : Int → Node) : Nat → Int → Option Int × Int
  | 0, w => (none, w)
  | n + 1, w => if (f w).iStrVal ≤ 0 then (some w, nextWrite w) else findFree f n (nextWrite w)

/-- mirrors udp_sock.cpp:1761-1793 -/
def addNode (str : Bytes) (v : UInt32) (mday : Nat) (e : Entry) (p : Pool) (iLastIdx : Int) :
    Entry × Pool :=
  match findFree p.stInfo maxNodes p.iWriteIdx with
  | (none, w) => (e, { p with iWriteIdx := w })
  | (some idx, w) =>
    let f := update p.stInfo idx ⟨str.take 64, v.toInt32, -1⟩
    if InRange iLastIdx then
      ({ e with bStrCount := e.bStrCount + 1, bLastReportDayOfMonth := mday },
        { iNodeUse := p.iNodeUse + 1
          iWriteIdx := w
          stInfo := update f iLastIdx { f iLastIdx with iNextStrAttr := idx } })
    else
      ({ e with iReportIdx := idx, bStrCount := 1, bLastReportDayOfMonth := mday },
        { iNodeUse := p.iNodeUse + 1, iWriteIdx := w, stInfo := f })

/-- A report of `v` for `str`. -/
structure Report where
  str : Bytes
  v : UInt32
  bAttrDataType : UInt8
  deriving DecidableEq

/-- `iStrVal += uint32_attr_value()` -/
def addVal (v : UInt32) (n : Node) : Node := { n with iStrVal := (n.iStrVal.toUInt32 + v).toInt32 }

/-- The string is searched and its node counts the value, or gets one;
mirrors udp_sock.cpp:1694-1795 -/
def count (r : Report) (mday : Nat) (e : Entry) (p : Pool) : Option (Entry × Pool) :=
  match search p.stInfo r.str e.bStrCount e.iReportIdx with
  | .invalid => some (e, p)
  | .hit idx => some
      ({ e with bLastReportDayOfMonth := mday },
        { p with stInfo := update p.stInfo idx (addVal r.v (p.stInfo idx)) })
  | .miss iLastIdx =>
    if selectCount + maxStrCount ≤ e.bStrCount then do
      let (e, p, iLastIdx) ← evict e p
      pure (addNode r.str r.v mday e p iLastIdx)
    else some (addNode r.str r.v mday e p iLastIdx)

/-- A node of the hash table that was not used. -/
def Entry.fresh (key : Int × Int) (bAttrDataType : UInt8) : Entry :=
  ⟨key.1, key.2, bAttrDataType, 0, 0, -1, 0⟩

/-- A call for an entry that exists;
mirrors udp_sock.cpp:1673-1795 -/
def addStrAttrReport (r : Report) (now mday : Nat) (e : Entry) (p : Pool) :
    Option (Entry × Pool) := do
  let (e, p) ← checkClear now mday e p
  count r mday { e with bAttrDataType := r.bAttrDataType } p

/-! ## Runs -/

structure Sys where
  entries : List Entry
  pool : Pool

/-- A call for the entry with `key`; nothing is done if there is none. -/
def withEntry (key : Int × Int) (f : Entry → Pool → Option (Entry × Pool)) :
    List Entry → Pool → Option (List Entry × Pool)
  | [], p => some ([], p)
  | e :: es, p =>
    if e.key = key then (f e p).map fun (e', p') => (e' :: es, p')
    else (withEntry key f es p).map fun (es', p') => (e :: es', p')

inductive Label where
  /-- `AddStrAttrReportToShm`; `room` is whether the hash table has a node for a
  new entry -/
  | add (key : Int × Int) (r : Report) (now mday : Nat) (room : Bool)
  | checkClear (key : Int × Int) (now mday : Nat)
  /-- the caller of `AddStrAttrReportToShm` sets `dwLastReportTime` -/
  | stamp (key : Int × Int) (dwLastReportTime : UInt32)

def step (s : Sys) : Label → Option Sys
  | .add key r now mday room =>
    if s.entries.any (·.key = key) then
      (withEntry key (addStrAttrReport r now mday) s.entries s.pool).map fun (es, p) => ⟨es, p⟩
    else if room then
      -- `CheckClearStrAttrNodeShm` finds no strings in a new node
      (count r mday (.fresh key r.bAttrDataType) s.pool).map fun (e, p) => ⟨s.entries ++ [e], p⟩
    else some s
  | .checkClear key now mday =>
    (withEntry key (checkClear now mday) s.entries s.pool).map fun (es, p) => ⟨es, p⟩
  | .stamp key t =>
    (withEntry key (fun e p => some ({ e with dwLastReportTime := t }, p)) s.entries s.pool).map
      fun (es, p) => ⟨es, p⟩

/-- The shared memory when it is created. -/
def Sys.init : Sys := ⟨[], ⟨0, 0, fun _ => ⟨[], 0, 0⟩⟩⟩

/-! ## Values -/

theorem toInt32_pos {u : UInt32} (h0 : 0 < u) (h : u.toNat < 2 ^ 31) : 0 < u.toInt32 := by
  rw [Int32.lt_iff_toInt_lt, toInt_toInt32 h]
  have := UInt32.lt_iff_toNat_lt.1 h0
  simp
  omega

variable {v : UInt32} {f : Int → Node} {i idx : Int} {r : Report} {s : Sys}
  {cs1 cs2 cs : List (Entry × List Int)}

theorem addVal_toInt {n : Node} (hn : 0 < n.iStrVal) (h : n.iStrVal.toInt + v.toNat < 2 ^ 31) :
    (addVal v n).iStrVal.toInt = n.iStrVal.toInt + v.toNat := by
  rw [Int32.lt_iff_toInt_lt] at hn
  have hu := toNat_toUInt32 hn
  have hsum : (n.iStrVal.toUInt32 + v).toNat = n.iStrVal.toUInt32.toNat + v.toNat := by
    rw [UInt32.toNat_add]
    omega
  rw [addVal, toInt_toInt32 (by omega)]
  omega

/-! ## The nodes of one entry -/

variable {p p' p'' : Pool} {e e' : Entry} {c c' c'' : List Int}

/-- The strings and values of a chain. -/
def strs (f : Int → Node) (c : List Int) : List (Bytes × Int) :=
  c.map fun i => ((f i).szStrInfo, (f i).iStrVal.toInt)

/-- A node that can be handed out. -/
def Free (p : Pool) (i : Int) : Prop := InRange i ∧ ¬ 0 < (p.stInfo i).iStrVal

/-- The chain of an entry is `c`, with nodes in use. -/
structure Owns (p : Pool) (e : Entry) (c : List Int) : Prop where
  linked : Linked (nextOf p.stInfo) (-1) e.iReportIdx c
  count : c.length = e.bStrCount
  count_le : c.length ≤ selectCount + maxStrCount
  nodup : c.Nodup
  inRange : ∀ i ∈ c, InRange i
  used : ∀ i ∈ c, 0 < (p.stInfo i).iStrVal

/-- What a step may do for an entry whose nodes were `c` and are then `c'`: nodes
in use by others stay, new ones were free, and `iNodeUse` follows. -/
structure Change (p : Pool) (c : List Int) (p' : Pool) (c' : List Int) : Prop where
  frame : ∀ i, i ∉ c → 0 < (p.stInfo i).iStrVal → p'.stInfo i = p.stInfo i
  fresh : ∀ i ∈ c', i ∈ c ∨ ¬ 0 < (p.stInfo i).iStrVal
  use : p'.iNodeUse = p.iNodeUse + c'.length - c.length
  write : InRange p.iWriteIdx → InRange p'.iWriteIdx

theorem Change.refl (p : Pool) (c : List Int) : Change p c p c :=
  ⟨fun _ _ _ => rfl, fun _ hi => .inl hi, by omega, id⟩

theorem Change.trans (h : Change p c p' c') (h' : Change p' c' p'' c'') : Change p c p'' c'' where
  frame i hi hpos := by
    have hsame := h.frame i hi hpos
    have hi' : i ∉ c' := by
      intro hmem
      rcases h.fresh i hmem with hc | hfree
      · exact hi hc
      · exact hfree hpos
    rw [h'.frame i hi' (by rw [hsame]; exact hpos), hsame]
  fresh i hi := by
    rcases h'.fresh i hi with hc' | hfree'
    · exact h.fresh i hc'
    by_cases hc : i ∈ c
    · exact .inl hc
    · refine .inr fun hpos => hfree' ?_
      rw [h.frame i hc hpos]
      exact hpos
  use := by
    rw [h'.use, h.use]
    omega
  write hw := h'.write (h.write hw)

/-! ### Clearing -/

theorem clearFrom_linked {fuel : Nat} :
    ∀ {c} {idx} {f}, Linked (nextOf f) (-1) idx c → c.Nodup →
      (∀ i ∈ c, InRange i) → c.length < fuel →
      ∃ f', clearFrom fuel idx f = some f' ∧ ∀ i, i ∉ c → f' i = f i := by
  induction fuel with
  | zero => exact fun _ _ _ h => absurd h (Nat.not_lt_zero _)
  | succ fuel ih =>
    intro c idx f hl hnd hr hlen
    cases c with
    | nil =>
      have hidx : idx = -1 := hl
      subst hidx
      exact ⟨f, if_neg (by decide), fun _ _ => rfl⟩
    | cons a c =>
      obtain ⟨rfl, hl⟩ := hl
      obtain ⟨ha, hnd⟩ := nodup_cons.1 hnd
      have hnext : nextOf (update f idx (markFree (f idx))) = nextOf f := by
        funext i
        by_cases hi : i = idx
        · subst hi
          simp [nextOf, markFree]
        · simp [nextOf, update_of_ne hi]
      rw [← hnext] at hl
      obtain ⟨f', hf', hsame⟩ := ih hl hnd (fun i hi => hr i (mem_cons_of_mem _ hi))
        (Nat.lt_of_succ_lt_succ hlen)
      refine ⟨f', ?_, fun i hi => ?_⟩
      · rw [clearFrom, if_pos (hr idx mem_cons_self)]
        rw [hnext] at hf'
        exact hf'
      · rw [mem_cons, not_or] at hi
        rw [hsame i hi.2, update_of_ne hi.1]

theorem Owns.empty (p : Pool) (hc : e.bStrCount = 0) (hi : e.iReportIdx = -1) : Owns p e [] :=
  ⟨hi, hc.symm, Nat.zero_le _, nodup_nil, by simp, by simp⟩

/-- `CheckClearStrAttrNodeShm` returns; it clears the chain of a stale entry. -/
theorem checkClear_spec (now mday : Nat) (h : Owns p e c) :
    ∃ e' p', checkClear now mday e p = some (e', p') ∧
      ((e.stale now mday = false ∧ e' = e ∧ p' = p) ∨
        (e.stale now mday = true ∧ Owns p' e' [] ∧ Change p c p' [] ∧
          ∀ i, i ∉ c → p'.stInfo i = p.stInfo i)) := by
  unfold checkClear
  cases hs : e.stale now mday with
  | false => exact ⟨e, p, rfl, .inl ⟨rfl, rfl, rfl⟩⟩
  | true =>
    by_cases hc : e.bStrCount = 0
    · have hnil : c = [] := length_eq_zero_iff.1 (h.count.trans hc)
      subst hnil
      exact ⟨e, p, by rw [if_pos rfl, if_pos hc], .inr ⟨rfl, h, .refl p [], fun _ _ => rfl⟩⟩
    · have hlen : c.length < maxNodes + 1 := by
        have := h.count_le
        simp only [selectCount, maxStrCount, maxNodes] at *
        omega
      obtain ⟨f', hf', hsame⟩ := clearFrom_linked h.linked h.nodup h.inRange hlen
      refine ⟨{ e with bStrCount := 0, iReportIdx := -1 },
        { p with iNodeUse := p.iNodeUse - e.bStrCount, stInfo := f' }, ?_, .inr ⟨rfl, ?_, ?_, hsame⟩⟩
      · rw [if_neg hc, hf']
        rfl
      · exact .empty _ rfl rfl
      · refine ⟨fun i hi _ => hsame i hi, by simp, ?_, id⟩
        rw [h.count]
        simp

/-! ### Searching -/

section

variable (f : Int → Node)

/-- The search finds a node of the chain with the string, or its last one. -/
theorem search_linked (str : Bytes) :
    ∀ {c} {idx}, Linked (nextOf f) (-1) idx c → (∀ i ∈ c, InRange i) →
      (∃ i ∈ c, (f i).szStrInfo = str ∧ search f str c.length idx = .hit i) ∨
        ((∀ i ∈ c, (f i).szStrInfo ≠ str) ∧
          search f str c.length idx = .miss (c.getLastD (-1))) := by
  intro c
  induction c with
  | nil => exact fun _ _ => .inr ⟨nofun, rfl⟩
  | cons a c ih =>
    intro idx hl hr
    obtain ⟨rfl, hl⟩ := hl
    rw [length_cons, search, if_pos (hr idx mem_cons_self)]
    split
    case isTrue hstr => exact .inl ⟨idx, mem_cons_self, hstr, rfl⟩
    case isFalse hstr =>
      cases c with
      | nil => exact .inr ⟨by simpa using hstr, rfl⟩
      | cons b c =>
        rcases ih hl (fun i hi => hr i (mem_cons_of_mem _ hi)) with
          ⟨i, hi, hit⟩ | ⟨hne, hmiss⟩
        · exact .inl ⟨i, mem_cons_of_mem _ hi, hit⟩
        · refine .inr ⟨?_, hmiss.trans (by simp)⟩
          exact forall_mem_cons.2 ⟨hstr, hne⟩

/-! ### Thinning out -/

theorem collect_linked :
    ∀ {c} {idx}, Linked (nextOf f) (-1) idx c → (∀ i ∈ c, InRange i) → 0 ∉ c →
      collect f c.length idx = c.map fun i => ((f i).iStrVal, i) := by
  intro c
  induction c with
  | nil => exact fun _ _ _ => rfl
  | cons a c ih =>
    intro idx hl hr h0
    obtain ⟨rfl, hl⟩ := hl
    rw [mem_cons, not_or] at h0
    have hin : 0 < idx ∧ idx < maxNodes := by
      have ⟨hlo, hhi⟩ := hr idx mem_cons_self
      exact ⟨by omega, hhi⟩
    rw [length_cons, collect, if_pos hin, map_cons,
      ih hl (fun i hi => hr i (mem_cons_of_mem _ hi)) h0.2]

theorem byVal_perm (c : List Int) :
    (byVal (c.map fun i => ((f i).iStrVal, i))).Perm c := by
  have h := (perm_insertionSort (fun a b : Int32 × Int => a.1 ≤ b.1)
    (c.map fun i => ((f i).iStrVal, i))).map Prod.snd
  rw [map_map, show (Prod.snd ∘ fun i => ((f i).iStrVal, i)) = id from rfl, map_id] at h
  exact h

theorem release_of_not_mem : ∀ {l} {f} {i}, i ∉ l →
    release l f i = f i := by
  intro l
  induction l with
  | nil => exact fun _ => rfl
  | cons a l ih =>
    intro f i hi
    rw [mem_cons, not_or] at hi
    rw [release, ih hi.2, update_of_ne hi.1]

theorem relink_data (l : List Int) :
    ∀ i f j, (relink i l f j).szStrInfo = (f j).szStrInfo ∧
      (relink i l f j).iStrVal = (f j).iStrVal := by
  have hone : ∀ (f : Int → Node) i k j,
      (update f i { f i with iNextStrAttr := k } j).szStrInfo = (f j).szStrInfo ∧
        (update f i { f i with iNextStrAttr := k } j).iStrVal = (f j).iStrVal := by
    intro f i k j
    by_cases hj : j = i
    · subst hj
      rw [update_self]
      exact ⟨rfl, rfl⟩
    · rw [update_of_ne hj]
      exact ⟨rfl, rfl⟩
  induction l with
  | nil => exact fun i f j => hone f i (-1) j
  | cons a l ih =>
    intro i f j
    rw [relink, (ih ..).1, (ih ..).2]
    exact hone f i a j

theorem relink_of_not_mem (l : List Int) :
    ∀ {i} {f} {j}, j ∉ i :: l → relink i l f j = f j := by
  induction l with
  | nil =>
    intro i f j hj
    rw [mem_singleton] at hj
    exact update_of_ne hj ..
  | cons a l ih =>
    intro i f j hj
    rw [mem_cons, not_or] at hj
    rw [relink, ih hj.2, update_of_ne hj.1]

theorem relink_linked (l : List Int) : ∀ {i} {f}, (i :: l).Nodup →
      Linked (nextOf (relink i l f)) (-1) i (i :: l) := by
  induction l with
  | nil =>
    intro i f _
    refine ⟨rfl, ?_⟩
    simp [nextOf, relink, update_self, Linked]
  | cons a l ih =>
    intro i f hnd
    obtain ⟨hi, hnd⟩ := nodup_cons.1 hnd
    refine ⟨rfl, ?_⟩
    have hnext : nextOf (relink i (a :: l) f) i = a := by
      rw [relink, nextOf, relink_of_not_mem l hi, update_self]
    rw [hnext]
    exact ih hnd

/-- The nodes in the order of the map are the strings in the order of their
values. -/
theorem strs_byVal (c : List Int) :
    strs f (byVal (c.map fun i => ((f i).iStrVal, i))) =
      (strs f c).insertionSort fun a b => a.2 ≤ b.2 := by
  have hmap := map_insertionSort (fun a b : Int32 × Int => a.1 ≤ b.1)
    (fun a b : Bytes × Int => a.2 ≤ b.2)
    (fun x => ((f x.2).szStrInfo, (f x.2).iStrVal.toInt)) (c.map fun i => ((f i).iStrVal, i)) ?_
  · rw [map_map] at hmap
    rw [strs, byVal, map_map]
    exact hmap
  · intro a ha b hb
    obtain ⟨i, -, rfl⟩ := mem_map.1 ha
    obtain ⟨j, -, rfl⟩ := mem_map.1 hb
    exact Int32.le_iff_toInt_le

/-- A full chain without node 0 keeps the nodes with the largest values. -/
theorem evict_spec (h : Owns p e c) (hfull : selectCount + maxStrCount ≤ e.bStrCount) (h0 : 0 ∉ c) :
    ∃ e' p' c', evict e p = some (e', p', c'.getLastD (-1)) ∧ Owns p' e' c' ∧
      Change p c p' c' ∧ c'.length = maxStrCount ∧
      strs p'.stInfo c' = thin selectCount (strs p.stInfo c) ∧
      ∀ i, i ∉ c → p'.stInfo i = p.stInfo i := by
  have hcount := h.count
  have hle := h.count_le
  have hcol := collect_linked p.stInfo h.linked h.inRange h0
  rw [hcount] at hcol
  have hperm := byVal_perm p.stInfo c
  generalize hm : byVal (c.map fun i => ((p.stInfo i).iStrVal, i)) = m at hperm
  have hlen : m.length = selectCount + maxStrCount := by
    rw [hperm.length_eq]
    omega
  have hnd : m.Nodup := hperm.nodup_iff.2 h.nodup
  have hsplit := take_append_drop selectCount m
  have hdlen : (m.drop selectCount).length = maxStrCount := by
    rw [length_drop, hlen]
    rfl
  cases hd : m.drop selectCount with
  | nil =>
    rw [hd] at hdlen
    cases hdlen
  | cons i l =>
    rw [hd] at hdlen hsplit
    have hmem : ∀ j ∈ i :: l, j ∈ c := by
      intro j hj
      rw [← hperm.mem_iff, ← hsplit]
      exact mem_append_right _ hj
    rw [← hsplit] at hnd
    obtain ⟨-, hkept, hdisj⟩ := nodup_append.1 hnd
    have hrel : ∀ j ∈ i :: l, release (m.take selectCount) p.stInfo j = p.stInfo j := by
      intro j hj
      exact release_of_not_mem fun hj' => hdisj j hj' j hj rfl
    have hother : ∀ j, j ∉ c →
        relink i l (release (m.take selectCount) p.stInfo) j = p.stInfo j := by
      intro j hj
      rw [relink_of_not_mem l fun hj1 => hj (hmem j hj1), release_of_not_mem]
      exact fun hj2 => hj (hperm.mem_iff.1 (mem_of_mem_take hj2))
    refine ⟨{ e with iReportIdx := i, bStrCount := e.bStrCount - selectCount }, { p with
        iNodeUse := p.iNodeUse - selectCount
        stInfo := relink i l (release (m.take selectCount) p.stInfo) },
      i :: l, ?_, ⟨?_, ?_, ?_, hkept, ?_, ?_⟩, ⟨fun j hj _ => hother j hj, ?_, ?_, id⟩, hdlen,
      ?_, hother⟩
    · unfold evict
      rw [hcol, hm]
      simp only [hd]
      rw [getLastD_cons]
    · exact relink_linked l hkept
    · simp only [hdlen]
      omega
    · rw [hdlen]
      exact Nat.le_add_left ..
    · exact fun j hj => h.inRange j (hmem j hj)
    · intro j hj
      simp only [(relink_data ..).2, hrel j hj]
      exact h.used j (hmem j hj)
    · exact fun j hj => .inl (hmem j hj)
    · simp only [hdlen]
      omega
    · rw [thin, ← strs_byVal, hm, strs, strs, ← map_drop, hd]
      refine map_congr_left fun j hj => ?_
      simp [(relink_data ..).1, (relink_data ..).2, hrel j hj]

/-! ### Adding a node -/

theorem nextWrite_inRange {w : Int} (h : InRange w) : InRange (nextWrite w) := by
  unfold nextWrite
  have ⟨hlo, hhi⟩ := h
  split
  · exact ⟨Int.le_refl 0, by decide⟩
  · exact ⟨by omega, by omega⟩

theorem findFree_spec (n : Nat) :
    ∀ {w}, InRange w → InRange (findFree f n w).2 ∧
      ∀ idx, (findFree f n w).1 = some idx → InRange idx ∧ ¬ 0 < (f idx).iStrVal := by
  induction n with
  | zero => exact fun hw => ⟨hw, fun _ h => nomatch h⟩
  | succ n ih =>
    intro w hw
    rw [findFree]
    split
    case isTrue hfree =>
      refine ⟨nextWrite_inRange hw, fun idx h => ?_⟩
      cases h
      exact ⟨hw, Int32.not_lt.2 hfree⟩
    case isFalse => exact ih (nextWrite_inRange hw)

end

theorem nextWrite_eq {w : Int} (h : InRange w) : nextWrite w = (w + 1) % maxNodes := by
  obtain ⟨hlo, hhi⟩ := h
  unfold nextWrite
  split <;> simp only [maxNodes] at * <;> omega

theorem findFree_none {n : Nat} : ∀ {w}, InRange w → (findFree f n w).1 = none →
      ∀ k, k < n → 0 < (f ((w + k) % maxNodes)).iStrVal := by
  induction n with
  | zero => exact fun _ _ k hk => absurd hk (Nat.not_lt_zero k)
  | succ n ih =>
    intro w hw h k hk
    rw [findFree] at h
    split at h
    case isTrue => cases h
    case isFalse hused =>
      cases k with
      | zero =>
        rw [Int.natCast_zero, add_zero, Int.emod_eq_of_lt hw.1 hw.2]
        exact Int32.not_le.1 hused
      | succ k =>
        have hnext := ih (nextWrite_inRange hw) h k (Nat.lt_of_succ_lt_succ hk)
        rw [nextWrite_eq hw, Int.emod_add_emod] at hnext
        rw [Int.natCast_succ, add_comm (k : Int) 1, ← add_assoc]
        exact hnext

/-- A free node is found, wherever the write index starts. -/
theorem findFree_of_free (h : Free p i) (hw : InRange p.iWriteIdx) :
    (findFree p.stInfo maxNodes p.iWriteIdx).1 ≠ none := by
  intro hnone
  obtain ⟨⟨hlo, hhi⟩, hfree⟩ := h
  obtain ⟨hwlo, hwhi⟩ := hw
  have hk : ((i - p.iWriteIdx) % maxNodes).toNat < maxNodes := by
    simp only [maxNodes] at *
    omega
  have hused := findFree_none ⟨hwlo, hwhi⟩ hnone _ hk
  have hi : (p.iWriteIdx + (((i - p.iWriteIdx) % maxNodes).toNat : Int)) % maxNodes = i := by
    simp only [maxNodes] at *
    omega
  rw [hi] at hused
  exact hfree hused

theorem Owns.snoc (h : Owns p e c) (hin : InRange idx) (hnot : idx ∉ c)
    (hroom : c.length < selectCount + maxStrCount)
    (hlinked : Linked (nextOf p'.stInfo) (-1) e'.iReportIdx (c ++ [idx]))
    (hcount : e'.bStrCount = c.length + 1)
    (hval : ∀ i ∈ c, (p'.stInfo i).iStrVal = (p.stInfo i).iStrVal)
    (hpos : 0 < (p'.stInfo idx).iStrVal) : Owns p' e' (c ++ [idx]) where
  linked := hlinked
  count := by rw [hcount, length_append, length_singleton]
  count_le := by
    rw [length_append]
    exact hroom
  nodup := by
    refine nodup_append.2 ⟨h.nodup, nodup_singleton idx, ?_⟩
    intro a ha b hb hab
    rw [mem_singleton] at hb
    exact hnot (hb ▸ hab ▸ ha)
  inRange i hi := by
    rcases mem_append.1 hi with hi | hi
    · exact h.inRange i hi
    · exact mem_singleton.1 hi ▸ hin
  used i hi := by
    rcases mem_append.1 hi with hi | hi
    · rw [hval i hi]
      exact h.used i hi
    · exact mem_singleton.1 hi ▸ hpos

/-- A free node goes to the end of a chain. -/
theorem Change.snoc (hfree : ¬ 0 < (p.stInfo idx).iStrVal)
    (hother : ∀ i, i ∉ c → i ≠ idx → p'.stInfo i = p.stInfo i)
    (huse : p'.iNodeUse = p.iNodeUse + 1) (hwrite : InRange p'.iWriteIdx) :
    Change p c p' (c ++ [idx]) where
  frame i hi hpos := by
    refine hother i hi ?_
    rintro rfl
    exact hfree hpos
  fresh i hi := by
    rcases mem_append.1 hi with hi | hi
    · exact .inl hi
    · exact .inr (mem_singleton.1 hi ▸ hfree)
  use := by
    rw [length_append, length_singleton]
    omega
  write _ := hwrite

theorem strs_snoc {f' : Int → Node} {x : Bytes × Int}
    (hstr : ∀ i ∈ c, (f' i).szStrInfo = (f i).szStrInfo)
    (hval : ∀ i ∈ c, (f' i).iStrVal = (f i).iStrVal)
    (hx : ((f' idx).szStrInfo, (f' idx).iStrVal.toInt) = x) :
    strs f' (c ++ [idx]) = strs f c ++ [x] := by
  rw [strs, map_append, map_singleton, hx]
  refine congrArg (· ++ [x]) (map_congr_left fun i hi => ?_)
  rw [hstr i hi, hval i hi]

/-- A new string gets a node at the end of the chain, if one is free. -/
theorem addNode_spec (str : Bytes) (mday : Nat) (h : Owns p e c)
    (hw : InRange p.iWriteIdx) (hroom : c.length < selectCount + maxStrCount) (hv : 0 < v)
    (hmax : v.toNat < 2 ^ 31) :
    ∃ e' p' c', addNode str v mday e p (c.getLastD (-1)) = (e', p') ∧ Owns p' e' c' ∧
      Change p c p' c' ∧ ∀ i, Free p i →
        strs p'.stInfo c' = strs p.stInfo c ++ [(str.take 64, (v.toNat : Int))] ∧
          e'.bLastReportDayOfMonth = mday := by
  obtain ⟨hw', hfound⟩ := findFree_spec p.stInfo maxNodes hw
  unfold addNode
  rcases hff : findFree p.stInfo maxNodes p.iWriteIdx with ⟨_ | idx, w⟩
  · rw [hff] at hw'
    refine ⟨_, _, c, rfl, { h with }, ⟨fun _ _ _ => rfl, fun _ hi => .inl hi, by simp, fun _ => hw'⟩,
      fun i hi => absurd ?_ (findFree_of_free hi hw)⟩
    rw [hff]
  · rw [hff] at hw' hfound
    obtain ⟨hin, hfree⟩ := hfound idx rfl
    have hnot : idx ∉ c := fun hmem => hfree (h.used idx hmem)
    have hpos := toInt32_pos hv hmax
    have hval := toInt_toInt32 hmax
    rcases eq_nil_or_concat c with rfl | ⟨c0, last, hc⟩
    · -- the first node of an entry
      refine ⟨_, _, [] ++ [idx], rfl, h.snoc hin hnot hroom ?linked rfl nofun ?pos,
        .snoc hfree ?other rfl hw', fun _ _ => ⟨strs_snoc nofun nofun ?new, rfl⟩⟩
      case linked => exact ⟨rfl, by simp [nextOf, Linked]⟩
      case pos => simpa using hpos
      case other =>
        intro i _ hne
        simp [update_of_ne hne]
      case new => simp [hval]
    · rw [concat_eq_append] at hc
      subst hc
      have hmem : last ∈ c0 ++ [last] := mem_append_right _ mem_cons_self
      have hne : last ≠ idx := fun heq => hnot (heq ▸ hmem)
      have hlast : last ∉ c0 := fun hl =>
        (nodup_append.1 h.nodup).2.2 last hl last mem_cons_self rfl
      rw [getLastD_concat]
      simp only [if_pos (h.inRange last hmem)]
      generalize hf : update (update p.stInfo idx ⟨str.take 64, v.toInt32, -1⟩) last _ = f
      have hdata : ∀ i ∈ c0 ++ [last], (f i).szStrInfo = (p.stInfo i).szStrInfo ∧
          (f i).iStrVal = (p.stInfo i).iStrVal := by
        intro i hi
        have hi2 : i ≠ idx := fun heq => hnot (heq ▸ hi)
        by_cases hi1 : i = last
        · subst hi1
          simp [← hf, update_of_ne hne]
        · simp [← hf, update_of_ne hi1, update_of_ne hi2, and_self]
      have hidx : f idx = ⟨str.take 64, v.toInt32, -1⟩ := by
        rw [← hf, update_of_ne hne.symm, update_self]
      refine ⟨_, _, c0 ++ [last] ++ [idx], rfl, h.snoc hin hnot hroom ?linked ?count
        (fun i hi => (hdata i hi).2) ?pos, .snoc hfree ?other rfl hw', fun _ _ => ⟨?strs, rfl⟩⟩
      case linked =>
        rw [append_assoc]
        refine h.linked.snoc (fun x hx => ?_) ?_ ?_
        · have hx1 : x ≠ last := fun heq => hlast (heq ▸ hx)
          have hx2 : x ≠ idx := fun heq => hnot (heq ▸ mem_append_left _ hx)
          simp [nextOf, ← hf, update_of_ne hx1, update_of_ne hx2]
        · simp [nextOf, ← hf]
        · simp [nextOf, hidx]
      case count => rw [h.count]
      case pos =>
        simp only [hidx]
        exact hpos
      case other =>
        intro i hi hi2
        have hi1 : i ≠ last := fun heq => hi (heq ▸ hmem)
        simp [← hf, update_of_ne hi1, update_of_ne hi2]
      case strs =>
        refine strs_snoc (fun i hi => (hdata i hi).1) (fun i hi => (hdata i hi).2) ?_
        simp [hidx, hval]

/-! ### One call -/

/-- What a call needs to know of the node that it finds and of the chain that it
thins out. -/
structure CountOk (r : Report) (e : Entry) (p : Pool) : Prop where
  hit : ∀ i, search p.stInfo r.str e.bStrCount e.iReportIdx = .hit i →
    (p.stInfo i).iStrVal.toInt + r.v.toNat < 2 ^ 31
  miss : ∀ iLast l, search p.stInfo r.str e.bStrCount e.iReportIdx = .miss iLast →
    selectCount + maxStrCount ≤ e.bStrCount → Linked (nextOf p.stInfo) (-1) e.iReportIdx l → 0 ∉ l

theorem count_hit (mday : Nat) (h : Owns p e c) (hi : i ∈ c)
    (hsum : (p.stInfo i).iStrVal.toInt + r.v.toNat < 2 ^ 31) :
    Owns { p with stInfo := update p.stInfo i (addVal r.v (p.stInfo i)) }
        { e with bLastReportDayOfMonth := mday } c ∧
      Change p c { p with stInfo := update p.stInfo i (addVal r.v (p.stInfo i)) } c := by
  refine ⟨{ h with linked := ?_, used := ?_ }, ?_, fun _ hj => .inl hj, by simp, id⟩
  · refine h.linked.congr fun j hj => ?_
    by_cases hji : j = i
    · subst hji
      simp [nextOf, addVal]
    · simp [nextOf, update_of_ne hji]
  · intro j hj
    by_cases hji : j = i
    · subst hji
      simp only [update_self]
      have hpos := h.used j hj
      have hval := addVal_toInt hpos hsum
      rw [Int32.lt_iff_toInt_lt] at hpos ⊢
      omega
    · simp only [update_of_ne hji]
      exact h.used j hj
  · intro j hj _
    have hji : j ≠ i := fun heq => hj (heq ▸ hi)
    simp [update_of_ne hji]

/-- The values of a chain after one of them was added to. -/
theorem strs_addVal (h : Owns p e c) (hi : i ∈ c)
    (hnd : (keys (strs p.stInfo c)).Nodup) (hsum : (p.stInfo i).iStrVal.toInt + v.toNat < 2 ^ 31) :
    strs (update p.stInfo i (addVal v (p.stInfo i))) c =
      bump ((p.stInfo i).szStrInfo, (v.toNat : Int)) (strs p.stInfo c) := by
  rw [bump, strs, strs, map_map]
  refine map_congr_left fun j hj => ?_
  by_cases hji : j = i
  · subst hji
    simp only [Function.comp_apply, update_self]
    rw [addVal_toInt (h.used j hj) hsum]
    rfl
  · -- no other node of the chain has the string
    have hne : (p.stInfo j).szStrInfo ≠ (p.stInfo i).szStrInfo := by
      intro heq
      rw [Totals.keys, strs, map_map] at hnd
      exact hji (inj_on_of_nodup_map hnd hj hi heq)
    simp [update_of_ne hji, if_neg hne]

/-- With a free node and a string that fits, a call adds its value to the totals
of the entry. -/
def Counts (r : Report) (mday : Nat) (p : Pool) (c : List Int) (e' : Entry) (p' : Pool)
    (c' : List Int) : Prop :=
  r.str.length ≤ 64 → (∃ i, Free p i) → (keys (strs p.stInfo c)).Nodup → strs p'.stInfo c' =
        add (selectCount + maxStrCount) selectCount (strs p.stInfo c) (r.str, (r.v.toNat : Int)) ∧
      e'.bLastReportDayOfMonth = mday

theorem mem_keys_strs {str : Bytes} : str ∈ keys (strs f c) ↔ ∃ i ∈ c, (f i).szStrInfo = str := by
  simp [Totals.keys, strs]

theorem Free.of_not_mem (h : Free p i) (hown : Owns p e c)
    (hsame : ∀ i, i ∉ c → p'.stInfo i = p.stInfo i) : Free p' i := by
  have hi : i ∉ c := fun hi => h.2 (hown.used i hi)
  refine ⟨h.1, ?_⟩
  rw [hsame i hi]
  exact h.2

theorem count_spec (mday : Nat) (h : Owns p e c) (hw : InRange p.iWriteIdx)
    (hv : 0 < r.v) (hmax : r.v.toNat < 2 ^ 31) (hok : CountOk r e p) :
    ∃ e' p' c', count r mday e p = some (e', p') ∧ Owns p' e' c' ∧ Change p c p' c' ∧
      Counts r mday p c e' p' c' := by
  have hsearch := search_linked p.stInfo r.str h.linked h.inRange
  have hlen : (strs p.stInfo c).length = e.bStrCount := by rw [strs, length_map, h.count]
  rw [h.count] at hsearch
  unfold count
  rcases hsearch with ⟨i, hi, hstr, hhit⟩ | ⟨hno, hmiss⟩
  · simp only [hhit]
    obtain ⟨hown, hch⟩ := count_hit mday h hi (hok.hit i hhit)
    refine ⟨_, _, c, rfl, hown, hch, fun _ _ hnd => ⟨?_, rfl⟩⟩
    rw [add, if_pos (mem_keys_strs.2 ⟨i, hi, hstr⟩), ← hstr]
    exact strs_addVal h hi hnd (hok.hit i hhit)
  · simp only [hmiss]
    have hnew : r.str ∉ keys (strs p.stInfo c) := by
      rw [mem_keys_strs]
      rintro ⟨i, hi, hstr⟩
      exact hno i hi hstr
    split
    case isTrue hfull =>
      obtain ⟨e1, p1, c1, hev, h1, hch, hlen1, hthin, hsame⟩ :=
        evict_spec h hfull (hok.miss _ c hmiss hfull h.linked)
      have hroom : c1.length < selectCount + maxStrCount := by
        rw [hlen1]
        decide
      obtain ⟨e2, p2, c2, hadd, h2, hch2, hstrs⟩ :=
        addNode_spec r.str mday h1 (hch.write hw) hroom hv hmax
      refine ⟨e2, p2, c2, ?_, h2, hch.trans hch2, fun hfit hex _ => ?_⟩
      · rw [hev]
        exact congrArg some hadd
      · obtain ⟨i, hi⟩ := hex
        obtain ⟨hs, hday⟩ := hstrs i (hi.of_not_mem h hsame)
        refine ⟨?_, hday⟩
        rw [hs, hthin, take_of_length_le hfit, add, if_neg hnew, if_pos (hlen ▸ hfull)]
    case isFalse hsmall =>
      have hroom : c.length < selectCount + maxStrCount := by
        rw [h.count]
        omega
      obtain ⟨e2, p2, c2, hadd, h2, hch2, hstrs⟩ := addNode_spec r.str mday h hw hroom hv hmax
      refine ⟨e2, p2, c2, congrArg some hadd, h2, hch2, fun hfit hex _ => ?_⟩
      obtain ⟨i, hi⟩ := hex
      obtain ⟨hs, hday⟩ := hstrs i hi
      refine ⟨?_, hday⟩
      rw [hs, take_of_length_le hfit, add, if_neg hnew, if_neg (hlen ▸ hsmall)]

theorem CountOk.of_empty (h : e.bStrCount = 0) : CountOk r e p := by
  refine ⟨fun i hi => ?_, fun _ _ _ hfull => ?_⟩
  · rw [h] at hi
    cases hi
  · rw [h] at hfull
    exact absurd hfull (by decide)

theorem count_fresh (mday : Nat) (hw : InRange p.iWriteIdx) (hv : 0 < r.v)
    (hmax : r.v.toNat < 2 ^ 31) (key : Int × Int) :
    ∃ e' p' c', count r mday (.fresh key r.bAttrDataType) p = some (e', p') ∧ Owns p' e' c' ∧
      Change p [] p' c' ∧ Counts r mday p [] e' p' c' :=
  count_spec mday (.empty p rfl rfl) hw hv hmax (.of_empty rfl)

/-- A call for an entry: unless the chain is cleared before, the condition is on
the chain as it is. -/
theorem addStrAttrReport_spec (now mday : Nat) (h : Owns p e c)
    (hw : InRange p.iWriteIdx) (hv : 0 < r.v) (hmax : r.v.toNat < 2 ^ 31)
    (hok : e.stale now mday = false → CountOk r e p) :
    ∃ e' p' c', addStrAttrReport r now mday e p = some (e', p') ∧ Owns p' e' c' ∧
      Change p c p' c' ∧ (e.stale now mday = false → Counts r mday p c e' p' c') ∧
      (e.stale now mday = true → r.str.length ≤ 64 → (∃ i, Free p i) →
        strs p'.stInfo c' = [(r.str, (r.v.toNat : Int))] ∧ e'.bLastReportDayOfMonth = mday) := by
  obtain ⟨e1, p1, hcl, hcase⟩ := checkClear_spec now mday h
  unfold addStrAttrReport
  rw [hcl]
  rcases hcase with ⟨hstale, rfl, rfl⟩ | ⟨hstale, h1, hch, hsame⟩
  · have hok1 := hok hstale
    have h1 : Owns p1 { e1 with bAttrDataType := r.bAttrDataType } c := { h with }
    obtain ⟨e2, p2, c2, hcount, h2, hch2, hcounts⟩ :=
      count_spec mday h1 hw hv hmax ⟨hok1.hit, hok1.miss⟩
    exact ⟨e2, p2, c2, hcount, h2, hch2, fun _ => hcounts, fun ht => absurd ht (by simp [hstale])⟩
  · have h1' : Owns p1 { e1 with bAttrDataType := r.bAttrDataType } [] := { h1 with }
    obtain ⟨e2, p2, c2, hcount, h2, hch2, hcounts⟩ :=
      count_spec mday h1' (hch.write hw) hv hmax (.of_empty h1.count.symm)
    refine ⟨e2, p2, c2, hcount, h2, hch.trans hch2, fun hf => absurd hf (by simp [hstale]),
      fun _ hfit ⟨i, hi⟩ => ?_⟩
    exact hcounts hfit ⟨i, hi.of_not_mem h hsame⟩ nodup_nil

/-! ## The fields of an entry -/

/-- What a call does to the fields of an entry and the write index, whatever its
chain is. -/
structure Effect (mday : Nat) (e : Entry) (p : Pool) (e' : Entry) (p' : Pool) : Prop where
  key : e'.key = e.key
  count_le : e'.bStrCount ≤ e.bStrCount + 1
  day : e.bLastReportDayOfMonth = mday → e'.bLastReportDayOfMonth = mday
  write : InRange p.iWriteIdx → InRange p'.iWriteIdx

theorem addNode_effect (str : Bytes) (v : UInt32) (mday : Nat) (e : Entry) (p : Pool)
    (iLastIdx : Int) : Effect mday e p (addNode str v mday e p iLastIdx).1
      (addNode str v mday e p iLastIdx).2 := by
  have hwrite : InRange p.iWriteIdx → InRange (findFree p.stInfo maxNodes p.iWriteIdx).2 :=
    fun hw => (findFree_spec p.stInfo maxNodes hw).1
  unfold addNode
  split
  case h_1 w hff => exact ⟨rfl, Nat.le_succ _, id, fun hw => by simpa [hff] using hwrite hw⟩
  case h_2 idx w hff =>
    rw [hff] at hwrite
    split
    · exact ⟨rfl, le_refl _, fun _ => rfl, hwrite⟩
    · exact ⟨rfl, Nat.le_add_left .., fun _ => rfl, hwrite⟩

variable {mday now : Nat}

theorem count_effect (h : count r mday e p = some (e', p')) : Effect mday e p e' p' ∧
      (e.bStrCount ≤ selectCount + maxStrCount → e'.bStrCount ≤ selectCount + maxStrCount) := by
  unfold count at h
  split at h
  · cases h
    exact ⟨⟨rfl, Nat.le_succ _, id, id⟩, id⟩
  · cases h
    exact ⟨⟨rfl, Nat.le_succ _, fun _ => rfl, id⟩, id⟩
  case h_3 iLast _ =>
    split at h
    case isTrue hfull =>
      obtain ⟨⟨e1, p1, iLast1⟩, hev, hadd⟩ := Option.bind_eq_some_iff.1 h
      have heff := addNode_effect r.str r.v mday e1 p1 iLast1
      rw [show addNode r.str r.v mday e1 p1 iLast1 = (e', p') from Option.some.inj hadd] at heff
      unfold evict at hev
      dsimp only at hev
      split at hev
      · cases hev
      · cases hev
        obtain ⟨hkey, hle, hday, hwrite⟩ := heff
        simp only [selectCount] at *
        exact ⟨⟨hkey, by omega, hday, hwrite⟩, fun _ => by omega⟩
    case isFalse hsmall =>
      have heff := addNode_effect r.str r.v mday e p iLast
      rw [show addNode r.str r.v mday e p iLast = (e', p') from Option.some.inj h] at heff
      refine ⟨heff, fun _ => ?_⟩
      have hle : e'.bStrCount ≤ e.bStrCount + 1 := heff.count_le
      omega

theorem count_key (h : count r mday e p = some (e', p')) : e'.key = e.key := (count_effect h).1.key

theorem checkClear_key (h : checkClear now mday e p = some (e', p')) : e'.key = e.key := by
  unfold checkClear at h
  split at h
  · split at h
    · cases h
      rfl
    · obtain ⟨f, -, hf⟩ := Option.bind_eq_some_iff.1 h
      cases hf
      rfl
  · cases h
    rfl

theorem addStrAttrReport_key (h : addStrAttrReport r now mday e p = some (e', p')) :
    e'.key = e.key := by
  obtain ⟨⟨e1, p1⟩, hcl, hcount⟩ := Option.bind_eq_some_iff.1 h
  have hkey : e'.key = Entry.key { e1 with bAttrDataType := r.bAttrDataType } := count_key hcount
  have hkey1 : e1.key = e.key := checkClear_key hcl
  exact hkey.trans hkey1

theorem stamp_key (t : UInt32) {e e' : Entry} {p p' : Pool}
    (h : some ({ e with dwLastReportTime := t }, p) = some (e', p')) : e'.key = e.key := by
  cases h
  rfl

/-! ## All entries -/

/-- Each entry `x.1` with its chain `x.2`. The list of all chained nodes is
without repetition: nodes of a chain are distinct and chains are disjoint. -/
structure Chains (s : Sys) (cs : List (Entry × List Int)) : Prop where
  entries : s.entries = cs.map Prod.fst
  owns : ∀ x ∈ cs, Owns s.pool x.1 x.2
  nodup : (cs.flatMap Prod.snd).Nodup
  use : s.pool.iNodeUse = (cs.flatMap Prod.snd).length
  write : InRange s.pool.iWriteIdx

/-- The condition of a call on the state before it. -/
def StepOk (s : Sys) : Label → Prop
  | .add key r now mday _ =>
    0 < r.v ∧ r.v.toNat < 2 ^ 31 ∧
      ∀ e ∈ s.entries, e.key = key → e.stale now mday = false → CountOk r e s.pool
  | _ => True

def Label.key : Label → Int × Int
  | .add key .. => key
  | .checkClear key .. => key
  | .stamp key _ => key

/-- The entries of other keys keep their chains and strings. -/
def Keeps (key : Int × Int) (s : Sys) (cs : List (Entry × List Int)) (s' : Sys)
    (cs' : List (Entry × List Int)) : Prop :=
  ∀ K ≠ key, ∀ x, cs.find? (·.1.key = K) = some x →
    cs'.find? (·.1.key = K) = some x ∧ strs s'.pool.stInfo x.2 = strs s.pool.stInfo x.2

/-- The call goes to the first entry with the key. -/
theorem withEntry_cases (key : Int × Int) (f : Entry → Pool → Option (Entry × Pool)) (p : Pool) :
    ∀ es, ((∀ e ∈ es, e.key ≠ key) ∧ withEntry key f es p = some (es, p)) ∨
      ∃ l1 e l2, es = l1 ++ e :: l2 ∧ (∀ x ∈ l1, x.key ≠ key) ∧ e.key = key ∧
        withEntry key f es p = (f e p).map fun r => (l1 ++ r.1 :: l2, r.2) := by
  intro es
  induction es with
  | nil => exact .inl ⟨nofun, rfl⟩
  | cons e es ih =>
    rw [withEntry]
    split
    case isTrue hk => exact .inr ⟨[], e, es, rfl, nofun, hk, rfl⟩
    case isFalse hne =>
      rcases ih with ⟨hall, hno⟩ | ⟨l1, e1, l2, rfl, hall, hk, hw⟩
      · exact .inl ⟨forall_mem_cons.2 ⟨hne, hall⟩, by rw [hno]; rfl⟩
      · refine .inr ⟨e :: l1, e1, l2, rfl, forall_mem_cons.2 ⟨hne, hall⟩, hk, ?_⟩
        rw [hw, Option.map_map]
        rfl

theorem flatMap_replace (cs1 cs2 : List (Entry × List Int)) (e : Entry) (c : List Int) :
    ((cs1 ++ (e, c) :: cs2).flatMap Prod.snd).Perm (c ++ (cs1 ++ cs2).flatMap Prod.snd) := by
  simp only [flatMap_append]
  exact perm_append_comm_assoc ..

section

variable (h : Chains s (cs1 ++ (e, c) :: cs2))
include h

/-- A node of another entry is in use and not in `c`. -/
theorem Chains.not_mem : ∀ x ∈ cs1 ++ cs2, ∀ i ∈ x.2, i ∉ c ∧ 0 < (s.pool.stInfo i).iStrVal := by
  intro x hx i hi
  have hnd := (flatMap_replace cs1 cs2 e c).nodup_iff.1 h.nodup
  obtain ⟨-, -, hdisj⟩ := nodup_append.1 hnd
  refine ⟨fun hc => hdisj i hc i (mem_flatMap.2 ⟨x, hx, hi⟩) rfl, ?_⟩
  refine (h.owns x ?_).used i hi
  rcases mem_append.1 hx with hx | hx
  · exact mem_append_left _ hx
  · exact mem_append_right _ (mem_cons_of_mem _ hx)

/-- The nodes of the others stay as they are. -/
theorem Chains.others (hch : Change s.pool c p' c') :
    ∀ x ∈ cs1 ++ cs2, ∀ i ∈ x.2, p'.stInfo i = s.pool.stInfo i := by
  intro x hx i hi
  obtain ⟨hc, hpos⟩ := h.not_mem x hx i hi
  exact hch.frame i hc hpos

/-- A change of one entry and its nodes keeps the chains of the others. -/
theorem Chains.replace (hown : Owns p' e' c') (hch : Change s.pool c p' c') :
    Chains ⟨cs1.map Prod.fst ++ e' :: cs2.map Prod.fst, p'⟩ (cs1 ++ (e', c') :: cs2) := by
  have hnd := (flatMap_replace cs1 cs2 e c).nodup_iff.1 h.nodup
  obtain ⟨-, hrest, -⟩ := nodup_append.1 hnd
  have hsame := h.others hch
  have hkeep : ∀ x ∈ cs1 ++ cs2, Owns s.pool x.1 x.2 → Owns p' x.1 x.2 := by
    intro x hx ho
    refine { ho with linked := ho.linked.congr fun i hi => ?_, used := fun i hi => ?_ }
    · rw [nextOf, nextOf, hsame x hx i hi]
    · rw [hsame x hx i hi]
      exact ho.used i hi
  refine ⟨by simp, ?_, ?_, ?_, hch.write h.write⟩
  · intro x hx
    rcases mem_append.1 hx with hx | hx
    · exact hkeep x (mem_append_left _ hx) (h.owns x (mem_append_left _ hx))
    · rcases mem_cons.1 hx with rfl | hx
      · exact hown
      · exact hkeep x (mem_append_right _ hx) (h.owns x (mem_append_right _ (mem_cons_of_mem _ hx)))
  · refine (flatMap_replace cs1 cs2 e' c').nodup_iff.2 (nodup_append.2 ⟨hown.nodup, hrest, ?_⟩)
    intro i hi j hj hij
    subst hij
    obtain ⟨x, hx, hxi⟩ := mem_flatMap.1 hj
    obtain ⟨hc, hpos⟩ := h.not_mem x hx i hxi
    rcases hch.fresh i hi with hic | hfree
    · exact hc hic
    · exact hfree hpos
  · have huse := h.use
    have hl := (flatMap_replace cs1 cs2 e c).length_eq
    have hl' := (flatMap_replace cs1 cs2 e' c').length_eq
    rw [length_append] at hl hl'
    rw [hch.use]
    omega

theorem Chains.replace_keeps (hch : Change s.pool c p' c')
    (hk : e'.key = e.key) : Keeps e.key s (cs1 ++ (e, c) :: cs2)
      ⟨cs1.map Prod.fst ++ e' :: cs2.map Prod.fst, p'⟩ (cs1 ++ (e', c') :: cs2) := by
  intro K hK x hfind
  rw [find?_append, find?_cons_of_neg (by simpa using hK.symm)] at hfind
  rw [find?_append, find?_cons_of_neg (by simpa [hk] using hK.symm)]
  rw [← find?_append] at hfind ⊢
  exact ⟨hfind, map_congr_left fun i hi => by
    rw [h.others hch x (mem_of_find?_eq_some hfind) i hi]⟩

end

/-- A call on the first entry with a key, if there is one. -/
theorem Chains.split (h : Chains s cs) (key : Int × Int) (f : Entry → Pool → Option (Entry × Pool)) :
    ((∀ x ∈ cs, x.1.key ≠ key) ∧
        (withEntry key f s.entries s.pool).map (fun r => Sys.mk r.1 r.2) = some s) ∨
      ∃ cs1 e c cs2, cs = cs1 ++ (e, c) :: cs2 ∧ (∀ x ∈ cs1, x.1.key ≠ key) ∧ e.key = key ∧
        (withEntry key f s.entries s.pool).map (fun r => Sys.mk r.1 r.2) =
          (f e s.pool).map fun r => ⟨cs1.map Prod.fst ++ r.1 :: cs2.map Prod.fst, r.2⟩ := by
  rcases withEntry_cases key f s.pool s.entries with ⟨hall, hno⟩ | ⟨l1, e, l2, hes, hall, hk, hw⟩
  · refine .inl ⟨fun x hx => hall x.1 ?_, by rw [hno]; rfl⟩
    rw [h.entries]
    exact mem_map_of_mem hx
  · have hcs := h.entries.symm.trans hes
    obtain ⟨cs1, rest, rfl, rfl, hrest⟩ := map_eq_append_iff.1 hcs
    obtain ⟨⟨e0, c⟩, cs2, rfl, rfl, rfl⟩ := map_eq_cons_iff.1 hrest
    refine .inr ⟨cs1, e0, c, cs2, rfl, fun x hx => hall x.1 (mem_map_of_mem hx), hk, ?_⟩
    rw [hw, Option.map_map]
    rfl

theorem Chains.withEntry {key : Int × Int}
    {f : Entry → Pool → Option (Entry × Pool)} (h : Chains s cs)
    (hf : ∀ e c, e ∈ s.entries → e.key = key → Owns s.pool e c →
      ∃ e' p' c', f e s.pool = some (e', p') ∧ Owns p' e' c' ∧ Change s.pool c p' c')
    (hkey : ∀ {e p e' p'}, f e p = some (e', p') → e'.key = e.key) :
    ∃ s', (withEntry key f s.entries s.pool).map (fun r => Sys.mk r.1 r.2) = some s' ∧
      ∃ cs', Chains s' cs' ∧ Keeps key s cs s' cs' := by
  rcases h.split key f with ⟨-, hno⟩ | ⟨cs1, e, c, cs2, rfl, -, rfl, hw⟩
  · exact ⟨s, hno, cs, h, fun _ _ _ hx => ⟨hx, rfl⟩⟩
  have hmem : (e, c) ∈ cs1 ++ (e, c) :: cs2 := mem_append_right _ mem_cons_self
  obtain ⟨e', p', c', hfe, hown', hch⟩ :=
    hf e c (h.entries ▸ mem_map_of_mem hmem) rfl (h.owns _ hmem)
  refine ⟨_, ?_, _, h.replace hown' hch, h.replace_keeps hch (hkey hfe)⟩
  rw [hw, hfe]
  rfl

theorem Chains.addEntry (h : Chains s cs) (hc : e.bStrCount = 0) (hi : e.iReportIdx = -1) :
    Chains ⟨s.entries ++ [e], s.pool⟩ (cs ++ [(e, [])]) := by
  have hflat : (cs ++ [(e, ([] : List Int))]).flatMap Prod.snd = cs.flatMap Prod.snd := by simp
  refine ⟨by simp [h.entries], ?_, by rw [hflat]; exact h.nodup, by rw [hflat]; exact h.use, h.write⟩
  intro x hx
  rcases mem_append.1 hx with hx | hx
  · exact h.owns x hx
  · rw [mem_singleton.1 hx]
    exact .empty _ hc hi

theorem Chains.step_inv {l : Label} (h : Chains s cs) (hok : StepOk s l) :
    ∃ s', step s l = some s' ∧ ∃ cs', Chains s' cs' ∧ Keeps l.key s cs s' cs' := by
  cases l with
  | add key r now mday room =>
    obtain ⟨hv, hmax, hcount⟩ := hok
    rw [step]
    split
    · refine h.withEntry (fun e c hmem hk hown => ?_) addStrAttrReport_key
      obtain ⟨e', p', c', hrun, hown', hch, -⟩ :=
        addStrAttrReport_spec now mday hown h.write hv hmax (hcount e hmem hk)
      exact ⟨e', p', c', hrun, hown', hch⟩
    · split
      · obtain ⟨e', p', c', hrun, hown, hch, -⟩ := count_fresh mday h.write hv hmax key
        have hnew := h.addEntry (e := .fresh key r.bAttrDataType) rfl rfl
        have hkeep := hnew.replace_keeps hch (count_key hrun)
        refine ⟨⟨s.entries ++ [e'], p'⟩, by rw [hrun]; rfl, _, h.entries ▸ hnew.replace hown hch, ?_⟩
        exact fun K hK x hx => hkeep K hK x (by rw [find?_append, hx]; rfl)
      · exact ⟨s, rfl, cs, h, fun _ _ _ hx => ⟨hx, rfl⟩⟩
  | checkClear key now mday =>
    refine h.withEntry (fun e c _ _ hown => ?_) checkClear_key
    obtain ⟨e1, p1, hrun, hcase⟩ := checkClear_spec now mday hown
    rcases hcase with ⟨-, rfl, rfl⟩ | ⟨-, hown', hch, -⟩
    · exact ⟨e1, _, c, hrun, hown, .refl _ c⟩
    · exact ⟨e1, p1, [], hrun, hown', hch⟩
  | stamp key t =>
    exact h.withEntry (fun e c _ _ hown => ⟨_, _, c, rfl, { hown with }, .refl _ c⟩) (stamp_key t)

theorem Chains.init : Chains Sys.init [] :=
  ⟨rfl, by simp, by simp, by simp [Sys.init], by decide⟩

theorem run_chains {ls : List Label} (hm : Meets step StepOk ls Sys.init) :
    ∃ s, run step ls Sys.init = some s ∧ ∃ cs, Chains s cs := by
  refine run_inv (fun s l hs hok => ?_) ⟨[], Chains.init⟩ hm
  obtain ⟨cs, h⟩ := hs
  obtain ⟨s', hs', cs', h', -⟩ := h.step_inv hok
  exact ⟨s', hs', cs', h'⟩

/-- Every entry has exactly `bStrCount` nodes, chained from `iReportIdx` to -1 and
in use; no node is in two places, and `iNodeUse` counts them all. -/
structure Sound (s : Sys) (cs : List (Entry × List Int)) : Prop where
  entries : s.entries = cs.map Prod.fst
  linked : ∀ x ∈ cs, Linked (nextOf s.pool.stInfo) (-1) x.1.iReportIdx x.2
  count : ∀ x ∈ cs, x.2.length = x.1.bStrCount
  distinct : (cs.flatMap Prod.snd).Nodup
  used : ∀ x ∈ cs, ∀ i ∈ x.2, 0 < (s.pool.stInfo i).iStrVal
  use : s.pool.iNodeUse = (cs.flatMap Prod.snd).length

theorem Chains.sound (h : Chains s cs) : Sound s cs :=
  ⟨h.entries, fun x hx => (h.owns x hx).linked, fun x hx => (h.owns x hx).count, h.nodup,
    fun x hx => (h.owns x hx).used, h.use⟩

/-- From an empty pool, a run of calls in which every value and every sum stays
below 2^31 and in which no chain with node 0 is thinned out returns, and the
pool is sound after it. -/
theorem str_attr_pool (ls : List Label) (hm : Meets step StepOk ls Sys.init) :
    ∃ s, run step ls Sys.init = some s ∧ ∃ cs, Sound s cs := by
  obtain ⟨s, hr, cs, h⟩ := run_chains hm
  exact ⟨s, hr, cs, h.sound⟩

/-- A report for attribute 1 of machine 1. -/
def report (str : Bytes) (v : UInt32) : Label := .add (1, 1) ⟨str, v, 0⟩ 1000 1 true

/-- Two strings, the first one reported twice. -/
theorem str_attr_pool_two : ∃ s, run step [report [97] 5, report [98] 3, report [97] 2] Sys.init =
    some s ∧ ∃ cs, Sound s cs := by
  refine str_attr_pool _ ⟨⟨by decide, by decide, fun _ he => nomatch he⟩, fun s hs => ?_⟩
  cases hs
  refine ⟨⟨by decide, by decide, fun e he _ _ => ?_⟩, fun s hs => ?_⟩
  · cases mem_singleton.mp he
    exact ⟨fun i hi => (by cases hi), fun _ _ _ hfull => absurd hfull (by decide +kernel)⟩
  cases hs
  refine ⟨⟨by decide, by decide, fun e he _ _ => ?_⟩, fun _ _ => trivial⟩
  cases mem_singleton.mp he
  refine ⟨fun i hi => ?_, fun _ _ _ hfull => absurd hfull (by decide +kernel)⟩
  cases hi
  decide +kernel

/-- One report of the value 2^31 makes a chained node count as free; and of 29
reports with different strings the last one finds the chain from node 0 empty
and reads behind the end of the map. -/
theorem str_attr_pool_broken : ((run step [report [97] 2147483648] Sys.init).map fun s =>
        (s.entries.map fun e => (e.bStrCount, e.iReportIdx), (s.pool.stInfo 0).iStrVal)) =
      some ([(1, 0)], -2147483648) ∧
    (run step ((List.range 28).map fun k => report [UInt8.ofNat k + 1] 1) Sys.init).isSome ∧
    (run step ((List.range 29).map fun k => report [UInt8.ofNat k + 1] 1) Sys.init).isNone := by
  decide +kernel

end DesPwd.L2.StrAttr
