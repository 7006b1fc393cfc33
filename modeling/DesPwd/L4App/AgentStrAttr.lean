import DesPwd.Core.Bytes
import DesPwd.L4App.AgentAttr

/-!
# String attributes on the agent

`MtReport_Str_Attr_Add` counts a value under an attribute and a string
(language/c_cpp/mt_attr.c). There is one hash table for them, and no list for
those it does not take: the call returns 0 without a trace. The agent takes the
values out with `ReadStrAttr` (slog_mtreport_client/mtreport_client.cpp).

`ReadStrAttr` sorts its batch with `attr_cmp`, which reads the first four bytes of
`szStrInfo` where an `AttrNode` has its id, and subtracts them; what `qsort` makes
of that is any permutation, a parameter here. It then searches the batch with
`str_attr_cmp`.

* `add_cases`, `read_moves`: what a call and a batch do to the entries.
* `Accounts`: after a run, the values that were stored and those that were lost.
* `str_attr_accounted`: the values of a pair are accounted for exactly when every
  call for it found a node.
* `str_attr_lost`: eleven pairs with one short key.
-/
namespace DesPwd.L4.AgentStrAttr

open Bytes L2.SharedHash BinSearch Tally Run List Prod
open L4.AgentAttr (MtShm LoopEnd mtReportAttrSpec hashNode attrNums attrRows attrRows_nums
  length_le_nodes)

/-! ## Data -/

/-- `MAX_STR_ATTR_READ_PER_EACH` -/
def readPerEach : Nat := 15

/-- mirrors `StrAttrNode`; `szStrInfo` up to its end -/
structure StrAttrNode where
  bSyncProcess : UInt8
  szStrInfo : Bytes
  iStrAttrId : Int32
  iStrVal : Int32
  deriving DecidableEq

instance : Inhabited StrAttrNode := ⟨⟨0, [], 0, 0⟩⟩

namespace StrAttrNode

def addValue (e : StrAttrNode) (v : Int32) : StrAttrNode := { e with iStrVal := e.iStrVal + v }

/-- The attribute and the string. -/
def pair (e : StrAttrNode) : Int32 × Bytes := (e.iStrAttrId, e.szStrInfo)

end StrAttrNode

/-- A string shorter than `szStrInfo`. -/
structure StrInfo where
  chars : Bytes
  noNul : 0 ∉ chars
  short : chars.length < 65

/-- The attribute part of the shared memory and the handle of the table. -/
structure Shm where
  attr : MtShm
  stStrAttrHash : Table StrAttrNode

def strcmp : Bytes → Bytes → Int
  | [], [] => 0
  | [], _ :: _ => -1
  | _ :: _, [] => 1
  | a :: as, b :: bs => if a = b then strcmp as bs else if a < b then -1 else 1

/-- mirrors language/c_cpp/mt_attr.c:44-50 -/
def mtreportStrAttrCmp (pKey pNode : StrAttrNode) : Int :=
  if pKey.iStrAttrId = pNode.iStrAttrId ∧ strcmp pKey.szStrInfo pNode.szStrInfo = 0 then 0 else 1

/-- mirrors slog_mtreport_client/mtreport_client.cpp:960-973 -/
def strAttrCmp (pKey pNode : StrAttrNode) : Int :=
  if pKey.iStrAttrId = pNode.iStrAttrId ∧ strcmp pKey.szStrInfo pNode.szStrInfo = 0 then 0
  else if pNode.iStrAttrId < pKey.iStrAttrId ∨
      pKey.iStrAttrId = pNode.iStrAttrId ∧ 0 < strcmp pKey.szStrInfo pNode.szStrInfo then 1
  else -1

/-- `*(uint32_t*)pstr` -/
def word (a b c d : UInt8) : UInt32 :=
  a.toUInt32 + (b.toUInt32 <<< 8) + (c.toUInt32 <<< 16) + (d.toUInt32 <<< 24)

/-- Words while more than four bytes are left, then one signed char after the other.
mirrors mt_attr.c:97-112 -/
def getShortKeyByStr : Bytes → UInt32
  | a :: b :: c :: d :: e :: pstr => word a b c d + getShortKeyByStr (e :: pstr)
  | pstr => (pstr.map fun c => c.toInt8.toInt32.toUInt32).sum

def dwShortKey (attr : Int32) (szStrInfo : Bytes) : Nat :=
  (attr.toUInt32 + getShortKeyByStr szStrInfo).toNat

/-- `stRecord` after the `strncpy` of a string without its end. -/
def stRecord (attr : Int32) (pstr : Bytes) : StrAttrNode :=
  { bSyncProcess := 0, szStrInfo := pstr.take 64, iStrAttrId := attr, iStrVal := 0 }

/-- What `qsort` does to the batch. -/
structure Qsort where
  sort : List StrAttrNode → List StrAttrNode
  perm : ∀ b, (sort b).Perm b

/-! ## The calls -/

section Add

variable (attr : Int32) (pstr : Bytes) (iValue : Int32) (pid now : Nat)

/-- The node that `HashTableSearchEx` returns, and whether it is the pair's. -/
def search (t : Table StrAttrNode) : Option Nat × Bool :=
  t.hashTableSearchEx (stRecord attr pstr) (dwShortKey attr (stRecord attr pstr).szStrInfo)

/-- From `check_again` on, with so many tries left.
mirrors mt_attr.c:279-306 -/
def strAttrLoop : Nat → Table StrAttrNode → Table StrAttrNode × LoopEnd
  | 0, t => (t, .tooMany)
  | n + 1, t =>
    match search attr pstr t with
    | (some i, true) => (t.setData i ((t.node i).data.addValue iValue), .stored)
    | (some i, false) =>
      let pNode := (t.node i).data
      -- VARMEM_CAS_GET
      if pNode.bSyncProcess = 0 then
        (((t.setData i ⟨1, pstr.take 64, attr, iValue⟩).insertHashNode i pid now).1, .stored)
      else if 10 ≤ pNode.bSyncProcess then
        (((t.setData i ⟨pNode.bSyncProcess, pstr.take 64, attr, iValue⟩).insertHashNode i pid now).1,
          .stored)
      else strAttrLoop n (t.setData i { pNode with bSyncProcess := pNode.bSyncProcess + 1 })
    | (none, _) => (t, .notStored)

/-- mirrors mt_attr.c:258-307 -/
def mtReportStrAttrAdd (s : Shm) : Shm × Int :=
  if attr ≤ 0 ∨ iValue ≤ 0 then (s, -1)
  else
    let r := strAttrLoop attr pstr iValue pid now 11 s.stStrAttrHash
    let s := { s with stStrAttrHash := r.1 }
    match r.2 with
    | .tooMany => ({ s with attr := (mtReportAttrSpec 238 1 s.attr).1 }, -2)
    | .stored => (s, 0)
    | .notStored => (s, 0)

end Add

def batchFull (b : List StrAttrNode) : Bool := decide (readPerEach ≤ b.length)

/-- mirrors mtreport_client.cpp:1003-1011 -/
def batchTake (q : Qsort) (b : List StrAttrNode) (pNode : StrAttrNode) : List StrAttrNode :=
  match bsearch (strAttrCmp pNode) b with
  | some i => b.modify i fun e => e.addValue pNode.iStrVal
  | none => if 0 < pNode.iStrVal then q.sort (b ++ [pNode]) else b

/-- `ReadStrAttr` with `wReadStrAttrCount` 0 before it.
mirrors mtreport_client.cpp:975-1034 -/
def readStrAttr (q : Qsort) (pid now : Nat) (s : Shm) : Shm × List StrAttrNode :=
  let r := s.stStrAttrHash.drainTable batchFull (batchTake q) pid now (hashNode * rowMax) []
  ({ s with stStrAttrHash := r.1 }, r.2)

/-! ## What they do to the entries -/

theorem strcmp_eq_zero_iff : ∀ {a b}, strcmp a b = 0 ↔ a = b
  | [], [] => by simp [strcmp]
  | [], _ :: _ => by simp [strcmp]
  | _ :: _, [] => by simp [strcmp]
  | a :: as, b :: bs => by
    unfold strcmp
    by_cases h : a = b
    · simp [h, strcmp_eq_zero_iff]
    · by_cases hlt : a < b <;> simp [h, hlt]

variable {a b : StrAttrNode}

theorem same_pair_iff :
    a.iStrAttrId = b.iStrAttrId ∧ strcmp a.szStrInfo b.szStrInfo = 0 ↔ a.pair = b.pair := by
  rw [strcmp_eq_zero_iff, StrAttrNode.pair, StrAttrNode.pair, mk.injEq]

theorem strAttrCmp_eq_zero_iff : strAttrCmp a b = 0 ↔ a.pair = b.pair := by
  rw [← same_pair_iff]
  unfold strAttrCmp
  split
  · rename_i h
    simp [h]
  · rename_i h
    split <;> simp [h]

theorem mtreportStrAttrCmp_eq_zero_iff : mtreportStrAttrCmp a b = 0 ↔ a.pair = b.pair := by
  rw [← same_pair_iff]
  unfold mtreportStrAttrCmp
  split
  · rename_i h
    simp [h]
  · rename_i h
    simp [h]

/-- The values of a pair. -/
abbrev PairAdded (k : Int32 × Bytes) (v : Int32) (xs ys : List StrAttrNode) : Prop :=
  Added StrAttrNode.pair StrAttrNode.iStrVal k v xs ys

section Entries

variable {pid : Nat} {t : Table StrAttrNode} {c : Cells StrAttrNode}

/-- A call for a string shorter than `szStrInfo`: the value is stored when there is a
node for it, and nothing changes otherwise. -/
theorem loop_cases (h : Holds attrRows mtreportStrAttrCmp pid t c) (attr : Int32) (str : StrInfo)
    (iValue : Int32) (now n : Nat) :
    ((search attr str.chars t).1.isSome = true ∧
      ∃ t' c', strAttrLoop attr str.chars iValue pid now (n + 1) t = (t', .stored) ∧
        Holds attrRows mtreportStrAttrCmp pid t' c' ∧ PairAdded (attr, str.chars) iValue c.vals c'.vals) ∨
    (¬ (search attr str.chars t).1.isSome = true ∧
      strAttrLoop attr str.chars iValue pid now (n + 1) t = (t, .notStored)) := by
  have htake : str.chars.take 64 = str.chars := take_of_length_le (Nat.le_of_lt_succ str.short)
  have hsearch : search attr str.chars t =
      c.search (Table.slotsFrom (dwShortKey attr str.chars) 0 attrNums)
        fun d => mtreportStrAttrCmp (stRecord attr str.chars) d == 0 := by
    unfold search
    rw [h.searchEx_eq, attrRows_nums]
    simp [stRecord, htake]
  unfold strAttrLoop
  cases hs : search attr str.chars t with
  | mk o isFind =>
    rw [hsearch] at hs
    cases o with
    | none => exact .inr ⟨by simp, rfl⟩
    | some i =>
      left
      refine ⟨rfl, ?_⟩
      cases isFind with
      | true =>
        obtain ⟨d, hl, hkey⟩ := Cells.search_found hs
        obtain ⟨c1, c2, rfl, -, hset⟩ := Cells.lookup_split hl h.nodup
        have hpair : d.pair = (attr, str.chars) := by
          have := mtreportStrAttrCmp_eq_zero_iff.mp (beq_iff_eq.mp hkey)
          rw [← this, StrAttrNode.pair, stRecord, htake]
        refine ⟨_, _, rfl, h.setCell hl _, ?_⟩
        rw [hset, h.data_lookup hl]
        rw [Cells.vals_middle, Cells.vals_middle]
        exact .merge _ d _ _ rfl hpair hpair rfl
      | false =>
        obtain ⟨hi, hic, hzero⟩ := h.search_free (hsearch.trans hs)
        dsimp only
        rw [if_pos (by rw [hzero]; rfl), htake]
        refine ⟨_, _, rfl, h.insertCell hi hic _ now, ?_⟩
        rw [Cells.vals_middle]
        exact .new _ rfl rfl (perm_append_singleton _ _)

theorem batchTake_added (q : Qsort) (b : List StrAttrNode) (d : StrAttrNode) :
    PairAdded d.pair d.iStrVal b (batchTake q b d) := by
  unfold batchTake
  split
  · rename_i i hb
    obtain ⟨l1, x, l2, rfl, rfl, h0⟩ := bsearch_found hb
    have hx := (strAttrCmp_eq_zero_iff.mp h0).symm
    have hmod : (l1 ++ x :: l2).modify l1.length (fun e => e.addValue d.iStrVal) =
        l1 ++ x.addValue d.iStrVal :: l2 := by
      simp [modify_eq_take_cons_drop]
    rw [hmod]
    exact .merge l1 x _ l2 rfl hx hx rfl
  · split
    · exact .new d rfl rfl ((q.perm _).trans (perm_append_singleton d b))
    · rename_i hval
      exact .drop hval

theorem drain_moves (q : Qsort) : ∀ (c : Cells StrAttrNode) b,
      Moves StrAttrNode.pair StrAttrNode.iStrVal b c.vals (c.drain batchFull (batchTake q) b).2
        (c.drain batchFull (batchTake q) b).1.vals := by
  intro c
  induction c with
  | nil => intro b; exact .refl _ _
  | cons p c ih =>
    intro b
    unfold Cells.drain
    split
    · exact .refl _ _
    · exact .step (batchTake_added q b p.2) (ih _)

theorem read_moves (q : Qsort) {s : Shm}
    (h : Holds attrRows mtreportStrAttrCmp pid s.stStrAttrHash c) (now : Nat) :
    ∃ t' c' b, readStrAttr q pid now s = ({ s with stStrAttrHash := t' }, b) ∧
      Holds attrRows mtreportStrAttrCmp pid t' c' ∧
      Moves StrAttrNode.pair StrAttrNode.iStrVal [] c.vals b c'.vals := by
  obtain ⟨t', hd, h'⟩ := h.drainTable batchFull (batchTake q) now (length_le_nodes h) []
  refine ⟨t', _, _, ?_, h', drain_moves q c []⟩
  unfold readStrAttr
  rw [hd]

end Entries

/-! ## Runs -/

inductive Call
  | add (attr : Int32) (str : StrInfo) (iValue : Int32) (now : Nat)
  | read (now : Nat)

/-- The memory, the batches and the calls that returned 0. -/
structure Sys where
  mem : Shm
  batches : List (List StrAttrNode)
  accepted : List ((Int32 × Bytes) × Int32)

/-- After `MtReport_InitAttr` on new shared memory. -/
def Sys.init : Sys := ⟨⟨MtShm.init, createHashTable attrRows hashNode mtreportStrAttrCmp⟩, [], []⟩

/-- The values of the pair `k` in the nodes `xs`. -/
def sumFor (k : Int32 × Bytes) (xs : List StrAttrNode) : Int :=
  sumOf StrAttrNode.pair StrAttrNode.iStrVal k xs

/-- The sum of `iValue` over the calls for the pair `k` that returned 0. -/
def Sys.acceptedSum (k : Int32 × Bytes) (s : Sys) : Int := sumOf fst snd k s.accepted

def step (q : Qsort) (pid : Nat) (s : Sys) : Call → Option Sys
  | .add attr str iValue now =>
    let r := mtReportStrAttrAdd attr str.chars iValue pid now s.mem
    some { s with
      mem := r.1
      accepted := if r.2 = 0 then s.accepted ++ [((attr, str.chars), iValue)] else s.accepted }
  | .read now =>
    let r := readStrAttr q pid now s.mem
    some { s with mem := r.1, batches := s.batches ++ [r.2] }

/-- The sum of the pair's values stays below 2^31. -/
def Fits (s : Sys) : Call → Prop
  | .add attr str iValue _ =>
    ¬ (attr ≤ 0 ∨ iValue ≤ 0) → s.acceptedSum (attr, str.chars) + iValue.toInt < 2 ^ 31
  | .read _ => True

/-- A call for the pair `k` with valid arguments has a node: its own, or a free
one. -/
def Takes (k : Int32 × Bytes) (s : Sys) : Call → Prop
  | .add attr str iValue _ => ¬ (attr ≤ 0 ∨ iValue ≤ 0) → (attr, str.chars) = k →
      (search attr str.chars s.mem.stStrAttrHash).1.isSome = true
  | .read _ => True

/-- The state `s` with the values `took` that were stored and the values `lost` that
were not. -/
structure Accounts (pid : Nat) (s : Sys) (c : Cells StrAttrNode)
    (took lost : List ((Int32 × Bytes) × Int32)) : Prop where
  holds : Holds attrRows mtreportStrAttrCmp pid s.mem.stStrAttrHash c
  balance : Balance StrAttrNode.pair StrAttrNode.iStrVal c.vals s.batches.flatten took
  split : ∀ k, s.acceptedSum k = sumOf fst snd k took + sumOf fst snd k lost
  lost_pos : Positive snd lost

theorem Accounts.init {pid : Nat} : Accounts pid Sys.init [] [] [] where
  holds := holds_create attrRows hashNode mtreportStrAttrCmp pid
  balance := .init
  split _ := rfl
  lost_pos := by intro e he; cases he

section Runs

variable {q : Qsort} {pid : Nat} {s s' : Sys} {c : Cells StrAttrNode}
  {took lost : List ((Int32 × Bytes) × Int32)}

/-- The next state, and the call among the lost when it has no node. -/
theorem Accounts.step (h : Accounts pid s c took lost) (call : Call) (hfit : Fits s call)
    (hs : AgentStrAttr.step q pid s call = some s') :
    ∃ c' took' new, Accounts pid s' c' took' (lost ++ new) ∧
      ∀ k, k ∉ new.map fst ↔ Takes k s call := by
  cases call with
  | read now =>
    obtain ⟨t', c', b, hr, hh, hm⟩ := read_moves q h.holds now
    unfold AgentStrAttr.step at hs
    dsimp only at hs
    rw [hr] at hs
    cases hs
    rw [← append_nil lost] at h
    refine ⟨c', took, [], ⟨hh, ?_, h.split, h.lost_pos⟩, ?_⟩
    · have := h.balance.move (List.Perm.refl c.vals) hm
      simpa using this
    · exact fun k => ⟨fun _ => trivial, fun _ => by simp⟩
  | add attr str iValue now =>
    unfold AgentStrAttr.step mtReportStrAttrAdd at hs
    dsimp only at hs
    by_cases hv : attr ≤ 0 ∨ iValue ≤ 0
    · rw [if_pos hv] at hs
      cases hs
      refine ⟨c, took, [], ?_, fun k => ⟨fun _ hn => absurd hv hn, fun _ => by simp⟩⟩
      rw [append_nil]
      exact ⟨h.holds, h.balance, h.split, h.lost_pos⟩
    · rw [if_neg hv] at hs
      have hval : 0 < iValue := Int32.not_le.mp fun hle => hv (.inr hle)
      have hroom := hfit hv
      have hsum : ∀ l k,
          sumOf fst snd k (l ++ [((attr, str.chars), iValue)]) =
            sumOf fst snd k l + if (attr, str.chars) = k then iValue.toInt else 0 := by
        simp [sumOf_cons]
      rcases loop_cases h.holds attr str iValue now 10 with
        ⟨hsome, t', c', hl, hh, hadd⟩ | ⟨hnone, hl⟩
      · rw [hl] at hs
        cases hs
        have htook : sumOf fst snd (attr, str.chars) took + iValue.toInt < 2 ^ 31 := by
          have h1 := h.split (attr, str.chars)
          have h2 := sumOf_nonneg fst (attr, str.chars) h.lost_pos
          omega
        refine ⟨c', took ++ [((attr, str.chars), iValue)], [], ⟨hh, h.balance.add hadd hval htook,
          fun k => ?_, by simpa using h.lost_pos⟩, fun k => ⟨fun _ _ _ => hsome, fun _ => by simp⟩⟩
        have := h.split k
        unfold Sys.acceptedSum at this ⊢
        rw [if_pos rfl, hsum, hsum, append_nil]
        omega
      · rw [hl] at hs
        cases hs
        refine ⟨c, took, [((attr, str.chars), iValue)], ⟨h.holds, h.balance, fun k => ?_, ?_⟩,
          fun k => ⟨fun hk _ he => absurd he.symm (by simpa using hk), fun hk => ?_⟩⟩
        · have := h.split k
          unfold Sys.acceptedSum at this ⊢
          rw [if_pos rfl, hsum, hsum]
          omega
        · exact positive_append.mpr ⟨h.lost_pos, by simpa [Positive] using hval⟩
        · intro hmem
          have hk' : k = (attr, str.chars) := by simpa using hmem
          exact hnone (hk hv hk'.symm)

theorem Accounts.run : ∀ {calls} {s} {c}
      {took lost}, Accounts pid s c took lost →
      Meets (AgentStrAttr.step q pid) Fits calls s →
      Run.run (AgentStrAttr.step q pid) calls s = some s' →
      ∃ c' took' new, Accounts pid s' c' took' (lost ++ new) ∧
        ∀ k, k ∉ new.map fst ↔ Meets (AgentStrAttr.step q pid) (Takes k) calls s := by
  intro calls
  induction calls with
  | nil =>
    intro s c took lost h _ hr
    cases hr
    exact ⟨c, took, [], by simpa using h, fun k => ⟨fun _ => trivial, fun _ => by simp⟩⟩
  | cons call calls ih =>
    intro s c took lost h hm hr
    obtain ⟨s1, hs, hr⟩ := Option.bind_eq_some_iff.mp hr
    obtain ⟨c1, took1, new1, h1, hk1⟩ := h.step call hm.1 hs
    obtain ⟨c2, took2, new2, h2, hk2⟩ := ih h1 (hm.2 s1 hs) hr
    refine ⟨c2, took2, new1 ++ new2, by simpa using h2, fun k => ?_⟩
    rw [map_append, mem_append, not_or, hk1 k, hk2 k, Meets.cons_iff hs]

/-- The pair's values are all there exactly when none was lost. -/
theorem Accounts.balanced_iff (h : Accounts pid s c took lost) (k : Int32 × Bytes) :
    sumFor k s.batches.flatten + sumFor k s.mem.stStrAttrHash.entries = s.acceptedSum k ↔
      k ∉ lost.map fst := by
  have hstored : sumFor k s.mem.stStrAttrHash.entries = sumFor k c.vals :=
    sumOf_perm h.holds.entries_perm
  have hbal : sumFor k s.batches.flatten + sumFor k c.vals = sumOf fst snd k took :=
    h.balance.sums k
  rw [hstored, h.split k]
  have hpos := h.lost_pos
  constructor
  · intro he hmem
    obtain ⟨e, hin, rfl⟩ := mem_map.mp hmem
    obtain ⟨l1, l2, rfl⟩ := append_of_mem hin
    obtain ⟨h1, h'⟩ := positive_append.mp hpos
    obtain ⟨he', h2⟩ := positive_cons.mp h'
    have h3 := sumOf_nonneg fst e.1 h1
    have h4 := sumOf_nonneg fst e.1 h2
    have h5 := toInt_pos he'
    rw [sumOf_append, sumOf_cons, if_pos rfl] at he
    omega
  · intro hno
    have hnil : sumOf fst snd k lost = 0 := by
      unfold sumOf valuesOf
      rw [filter_eq_nil_iff.mpr]
      · rfl
      · intro e he hk
        exact hno (mem_map.mpr ⟨e, he, by simpa using hk⟩)
    omega

end Runs

/-- After every run of calls and batches in which no sum leaves 31 bits: what the
batches had of a pair and what is stored is what the calls that returned 0 added, if
and only if each of them found the pair's node or a free one. -/
theorem str_attr_accounted (q : Qsort) (pid : Nat) (calls : List Call) {s : Sys}
    (hm : Meets (step q pid) Fits calls Sys.init)
    (hr : run (step q pid) calls Sys.init = some s) (k : Int32 × Bytes) :
    sumFor k s.batches.flatten + sumFor k s.mem.stStrAttrHash.entries = s.acceptedSum k ↔
      Meets (step q pid) (Takes k) calls Sys.init := by
  obtain ⟨c, took, lost, h, hk⟩ := Accounts.run .init hm hr
  rw [h.balanced_iff k]
  exact hk k

instance (s : Sys) (c : Call) : Decidable (Fits s c) :=
  match c with
  | .add attr str iValue _ => inferInstanceAs (Decidable
      (¬ (attr ≤ 0 ∨ iValue ≤ 0) → s.acceptedSum (attr, str.chars) + iValue.toInt < 2 ^ 31))
  | .read _ => .isTrue trivial

instance (k : Int32 × Bytes) (s : Sys) (c : Call) : Decidable (Takes k s c) :=
  match c with
  | .add attr str iValue _ => inferInstanceAs (Decidable
      (¬ (attr ≤ 0 ∨ iValue ≤ 0) → (attr, str.chars) = k →
        (search attr str.chars s.mem.stStrAttrHash).1.isSome = true))
  | .read _ => .isTrue trivial

/-- A `qsort` that finds its input in order. -/
def inOrder : Qsort := ⟨id, fun b => List.Perm.refl b⟩

/-- A string of one character, `'c'` for 0, `'b'` for 1 and so on. -/
def letter (i : Fin 11) : StrInfo where
  chars := [99 - UInt8.ofNat i]
  noNul := by revert i; decide
  short := by simp

/-- One pair twice, with a batch in between. -/
def fewCalls : List Call := [.add 1 (letter 0) 5 10, .read 70, .add 1 (letter 0) 3 80]

theorem str_attr_accounted_few :
    ∃ s, run (step inOrder 1) fewCalls Sys.init = some s ∧ s.acceptedSum (1, [99]) = 8 ∧
      sumFor (1, [99]) s.batches.flatten + sumFor (1, [99]) s.mem.stStrAttrHash.entries = 8 := by
  have hm : Meets (step inOrder 1) Fits fewCalls Sys.init := by decide +kernel
  have ht : Meets (step inOrder 1) (Takes (1, [99])) fewCalls Sys.init := by decide +kernel
  have hacc : (run (step inOrder 1) fewCalls Sys.init).map (Sys.acceptedSum (1, [99])) = some 8 := by
    decide +kernel
  obtain ⟨s, hr, hacc⟩ := Option.map_eq_some_iff.mp hacc
  exact ⟨s, hr, hacc, ((str_attr_accounted inOrder 1 fewCalls hm hr (1, [99])).mpr ht).trans hacc⟩

/-- Eleven pairs whose short key is 100. -/
def oneShortKey : List Call :=
  (List.finRange 11).map fun i : Fin 11 => .add (Int32.ofNat (i.val + 1)) (letter i) 5 10

/-- The eleventh call returns 0 and its value is nowhere. -/
theorem str_attr_lost : ∃ s, Meets (step inOrder 1) Fits oneShortKey Sys.init ∧
      run (step inOrder 1) oneShortKey Sys.init = some s ∧ s.acceptedSum (11, [89]) = 5 ∧
      sumFor (11, [89]) s.batches.flatten + sumFor (11, [89]) s.mem.stStrAttrHash.entries ≠ 5 := by
  have hm : Meets (step inOrder 1) Fits oneShortKey Sys.init := by decide +kernel
  have ht : ¬ Meets (step inOrder 1) (Takes (11, [89])) oneShortKey Sys.init := by decide +kernel
  have hacc : (run (step inOrder 1) oneShortKey Sys.init).map (Sys.acceptedSum (11, [89])) = some 5 := by
    decide +kernel
  obtain ⟨s, hr, hacc⟩ := Option.map_eq_some_iff.mp hacc
  obtain ⟨c, took, lost, h, hk⟩ := Accounts.run .init hm hr
  refine ⟨s, hm, hr, hacc, fun he => ht ((hk _).mp ((h.balanced_iff _).mp ?_))⟩
  rw [he, hacc]

end DesPwd.L4.AgentStrAttr
