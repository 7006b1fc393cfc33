import DesPwd.Core.Bytes
import DesPwd.L2Machine.SharedHashStore
import Mathlib.Dynamics.PeriodicPts.Defs
import Mathlib.Order.Preorder.Finite

/-!
# Check and reset of the shared hash table

`CheckHashTable` follows the links of the list from both ends while it meets used
nodes, counts them and compares the count with that of the head. Nothing bounds the
walk, and the links are those of shared memory that may be damaged. `ResetHashTable`
clears as many bytes as `dwShareMemBytes` says.

* `check_ends_iff`: the check returns exactly when the walks do not come back to a node.
* `reset_iff`: a reset table is a new one exactly when no used node lies behind the
  first `dwNodeCount`.

The source files are in `language/c_cpp/`.
-/
namespace DesPwd.L2.SharedHash

open Bytes Run Option

/-- A walk along `f` that goes on while `p` holds, which is so only for finitely many
elements, ends exactly when it does not meet one of them twice. -/
theorem walk_ends_iff {α : Type} {f : α → α} {p : α → Prop} {a : α} (hfin : {x | p x}.Finite) :
    (∃ n, ¬ p (f^[n] a)) ↔ ∀ j k, j < k → (∀ m ≤ k, p (f^[m] a)) → f^[j] a ≠ f^[k] a := by
  constructor
  · rintro ⟨n, hn⟩ j k hjk hall heq
    have hper : Function.IsPeriodicPt f (k - j) (f^[j] a) := by
      rw [Function.IsPeriodicPt, Function.IsFixedPt, ← Function.iterate_add_apply,
        Nat.sub_add_cancel hjk.le, heq]
    -- element `n` is one of the first `k`
    refine hn ?_
    rcases le_total n k with hle | hle
    · exact hall n hle
    · have hmod := hper.iterate_mod_apply (n - j)
      rw [← Function.iterate_add_apply, ← Function.iterate_add_apply,
        Nat.sub_add_cancel (hjk.le.trans hle)] at hmod
      rw [← hmod]
      have := Nat.mod_lt (n - j) (Nat.sub_pos_of_lt hjk)
      exact hall _ (by omega)
  · intro h
    by_contra hall
    rw [not_exists_not] at hall
    obtain ⟨j, k, hjk, heq⟩ := hfin.exists_lt_map_eq_of_forall_mem hall
    exact h j k hjk (fun m _ => hall m) heq

namespace Table

variable {K : Type} (t : Table K)

/-- `i >= 0 && i < (int)phash->dwRealNodeCount`, and the node is used -/
def Goes (i : Nat) : Prop := 0 ≤ toS32 i ∧ toS32 i < toS32 t.real ∧ (t.node i).bIsUsed = true

instance (i : Nat) : Decidable (t.Goes i) := instDecidableAnd

/-- One walk of the check: `iCheckNodeCount`. Nothing bounds the loop; `fuel` bounds its
rounds here.
mirrors mt_shared_hash.c:203-212, 220-229 -/
def checkWalk (link : Node K → Nat) : Nat → Nat → Option Nat
  | 0, _ => none
  | fuel + 1, i =>
    if t.Goes i then (checkWalk link fuel (link (t.node i))).map (· + 1) else some 0

/-- `CheckHashTable` once it has the flag.
mirrors mt_shared_hash.c:169-237 -/
def checkHashTable (now fuel : Nat) : Option (Table K × Int) :=
  if !t.bInitSuccess then some (t, -1)
  else do
    let free := { t with bHashUseFlag := false, dwLastUseTimeSec := now % 2 ^ 32 }
    let iCheckNodeCount ← t.checkWalk (·.dwNodeNextIndex) fuel t.dwNodeStartIndex
    if (iCheckNodeCount : Int) ≠ toS32 t.dwNodeUseCount then return (free, -1)
    let iCheckNodeCount ← t.checkWalk (·.dwNodePreIndex) fuel t.dwNodeEndIndex
    if (iCheckNodeCount : Int) ≠ toS32 t.dwNodeUseCount then return (free, -2)
    return (free, 0)

/-- Node `m` of a walk. -/
def visit (link : Node K → Nat) (i m : Nat) : Nat := (fun i => link (t.node i))^[m] i

/-- The list along `link` from `i` on has `n` nodes, all used. -/
def Counts (link : Node K → Nat) (i n : Nat) : Prop :=
  (∀ m < n, t.Goes (t.visit link i m)) ∧ ¬ t.Goes (t.visit link i n)

/-- The walk does not come back to a node. -/
def NoReturn (link : Node K → Nat) (i : Nat) : Prop :=
  ∀ j k, j < k → (∀ m ≤ k, t.Goes (t.visit link i m)) → t.visit link i j ≠ t.visit link i k

variable {t} {link : Node K → Nat} {i n fuel : Nat}

theorem checkWalk_eq_some_iff : ∀ {fuel i n},
    t.checkWalk link fuel i = some n ↔ n < fuel ∧ t.Counts link i n
  | 0, i, n => by simp [checkWalk]
  | fuel + 1, i, n => by
    rw [checkWalk]
    split
    case isTrue hi =>
      cases n with
      | zero => simp [Counts, visit, hi]
      | succ n =>
        have hcounts : t.Counts link i (n + 1) ↔ t.Counts link (link (t.node i)) n := by
          simp only [Counts, visit, Nat.forall_lt_succ_left, Function.iterate_zero, id, hi,
            true_and, Function.iterate_succ_apply]
        simp [checkWalk_eq_some_iff, hcounts]
    case isFalse hi =>
      cases n with
      | zero => simp [Counts, visit, hi]
      | succ n =>
        exact iff_of_false nofun fun h => hi (h.2.1 0 n.succ_pos)

theorem goes_finite : {i | t.Goes i}.Finite := by
  refine (Set.finite_lt_nat (2 ^ 33)).subset fun i hi => ?_
  have hreal := (toS32_lt t.real t.rows.fits).2
  have hlt := hi.2.1.trans hreal
  show i < 2 ^ 33
  unfold toS32 at hlt
  split at hlt <;> omega

/-- A walk comes to its end exactly when it does not come back to a node. -/
theorem exists_counts_iff : (∃ n, t.Counts link i n) ↔ t.NoReturn link i := by
  refine Iff.trans ?_ (walk_ends_iff goes_finite)
  constructor
  · rintro ⟨n, -, hn⟩
    exact ⟨n, hn⟩
  · intro h
    exact ⟨Nat.find h, fun m hm => not_not.mp (Nat.find_min h hm), Nat.find_spec h⟩

theorem Counts.unique {m : Nat} (hn : t.Counts link i n) (hm : t.Counts link i m) : n = m := by
  rcases lt_trichotomy n m with h | h | h
  · exact absurd (hm.1 n h) hn.2
  · exact h
  · exact absurd (hn.1 m h) hm.2

theorem eq_of_toS32 {c : Nat} (h : (n : Int) = toS32 c) (hc : c < 2 ^ 32) : c = n := by
  unfold toS32 at h
  split at h <;> omega

/-- **The check** ends, with the flag free, and with 0 only for two lists of
`dwNodeUseCount` used nodes, exactly when the walk from the start does not come back to
a node, and neither does the one from the end if it is made. -/
theorem check_ends_iff (t : Table K) (now : Nat) (hf : t.bHashUseFlag = false)
    (hc : t.dwNodeUseCount < 2 ^ 32) :
    (∃ fuel t' ret, t.checkHashTable now fuel = some (t', ret) ∧ t'.bHashUseFlag = false ∧
      (ret = 0 → t.Counts (·.dwNodeNextIndex) t.dwNodeStartIndex t.dwNodeUseCount ∧
        t.Counts (·.dwNodePreIndex) t.dwNodeEndIndex t.dwNodeUseCount)) ↔
      (t.bInitSuccess = true → t.NoReturn (·.dwNodeNextIndex) t.dwNodeStartIndex ∧
        ∀ n : Nat, t.Counts (·.dwNodeNextIndex) t.dwNodeStartIndex n →
          (n : Int) = toS32 t.dwNodeUseCount → t.NoReturn (·.dwNodePreIndex) t.dwNodeEndIndex) := by
  cases hinit : t.bInitSuccess with
  | false =>
    exact iff_of_true ⟨0, t, -1, by simp [checkHashTable, hinit], hf, nofun⟩ nofun
  | true =>
    simp only [← exists_counts_iff, forall_const, checkHashTable, hinit, bind_eq_bind]
    constructor
    · rintro ⟨fuel, t', ret, h, -⟩
      obtain ⟨n, hn, h⟩ := bind_eq_some_iff.mp h
      have hn := (checkWalk_eq_some_iff.mp hn).2
      refine ⟨⟨n, hn⟩, fun m hm huse => ?_⟩
      rw [if_neg (by rw [hn.unique hm, huse]; simp)] at h
      obtain ⟨n2, hn2, -⟩ := bind_eq_some_iff.mp h
      exact ⟨n2, (checkWalk_eq_some_iff.mp hn2).2⟩
    · rintro ⟨⟨n, hn⟩, h⟩
      by_cases huse : (n : Int) = toS32 t.dwNodeUseCount
      · obtain ⟨n2, hn2⟩ := h n hn huse
        refine ⟨max n n2 + 1, ?_⟩
        have h1 := checkWalk_eq_some_iff.mpr ⟨Nat.lt_succ_of_le (le_max_left n n2), hn⟩
        have h2 := checkWalk_eq_some_iff.mpr ⟨Nat.lt_succ_of_le (le_max_right n n2), hn2⟩
        rw [h1, bind_some, if_neg (not_not.mpr huse), h2, bind_some]
        by_cases huse2 : (n2 : Int) = toS32 t.dwNodeUseCount
        · rw [if_neg (not_not.mpr huse2)]
          refine ⟨_, 0, rfl, rfl, fun _ => ⟨?_, ?_⟩⟩
          · rwa [eq_of_toS32 huse hc]
          · rwa [eq_of_toS32 huse2 hc]
        · rw [if_pos huse2]
          exact ⟨_, -2, rfl, rfl, by simp⟩
      · have h1 := checkWalk_eq_some_iff.mpr ⟨n.lt_succ_self, hn⟩
        exact ⟨_, _, -1, by rw [h1, bind_some, if_pos huse]; rfl, rfl, by simp⟩

theorem check_ends_two : ∃ fuel t' ret, twoUsed.checkHashTable 9 fuel = some (t', ret) ∧
    t'.bHashUseFlag = false ∧ (ret = 0 → twoUsed.Counts (·.dwNodeNextIndex) 3 2 ∧
      twoUsed.Counts (·.dwNodePreIndex) 5 2) :=
  (check_ends_iff twoUsed 9 rfl (by decide)).mpr fun _ =>
    ⟨exists_counts_iff.mp ⟨2, by unfold Counts; decide⟩,
      fun _ _ _ => exists_counts_iff.mp ⟨2, by unfold Counts; decide⟩⟩

/-- Node 0 is used and points to itself. -/
def selfLinked : Table Nat :=
  let t := initHashTableForWrite twentyNodes (fun _ _ => 0) true
  (((t.setNode 0 ⟨true, 20, 0, 0⟩).setStart 0).setEnd 0).setUseCount 1

theorem check_self_linked :
    selfLinked.bHashUseFlag = false ∧ ¬ ∃ fuel r, selfLinked.checkHashTable 9 fuel = some r := by
  refine ⟨rfl, fun ⟨fuel, r, h⟩ => ?_⟩
  obtain ⟨n, hn, -⟩ := bind_eq_some_iff.mp h
  have hret := exists_counts_iff.mp ⟨n, (checkWalk_eq_some_iff.mp hn).2⟩
  refine hret 0 1 Nat.one_pos (fun m hm => ?_) rfl
  have : m = 0 ∨ m = 1 := by omega
  obtain rfl | rfl := this <;> decide

end Table

/-! ## Reset -/

section Reset

variable {K : Type} {short : K → Nat} {pid : Nat} {s : List K} {l : List Nat} {t t0 : Table K}

/-- Two tables that are the same up to the nodes not in use. -/
structure SameView (t t0 : Table K) : Prop where
  start : t.dwNodeStartIndex = t0.dwNodeStartIndex
  stop : t.dwNodeEndIndex = t0.dwNodeEndIndex
  count : t.dwNodeUseCount = t0.dwNodeUseCount
  cur : t.dwCurIndex = t0.dwCurIndex
  rev : t.dwCurIndexRevers = t0.dwCurIndexRevers
  used : ∀ i, i < t.real → (t.node i).bIsUsed = (t0.node i).bIsUsed
  node : ∀ i, i < t.real → (t.node i).bIsUsed = true → t.node i = t0.node i

/-- Two tables with the same nodes in use, and the same keys in them. -/
structure Alike (short : K → Nat) (pid : Nat) (t t0 : Table K) (l : List Nat) (s : List K) :
    Prop where
  inv : MapInv short pid t l s
  inv0 : MapInv short pid t0 l s
  rows : t.rows = t0.rows
  data : ∀ i ∈ l, (t.node i).data = (t0.node i).data
  cur : t.dwCurIndex = t0.dwCurIndex
  rev : t.dwCurIndexRevers = t0.dwCurIndexRevers

namespace Alike

section

variable (h : Alike short pid t t0 l s)
include h

theorem real_eq : t.real = t0.real := by rw [Table.real, h.rows]; rfl

theorem nx_eq : ∀ i ∈ t.real :: l, t.nx i = t0.nx i :=
  h.inv.ring.seg.next_unique (h.real_eq ▸ h.inv0.ring.seg)

theorem pv_eq {i : Nat} (hi : i ∈ t.real :: l) : t.pv i = t0.pv i :=
  h.inv.ring.reverse.seg.next_unique (h.real_eq ▸ h.inv0.ring.reverse.seg) i (by simpa using hi)

theorem used_eq {i : Nat} (hi : i < t.real) : (t.node i).bIsUsed = (t0.node i).bIsUsed :=
  Bool.eq_iff_iff.mpr ((h.inv.used i hi).trans (h.inv0.used i (h.real_eq ▸ hi)).symm)

theorem view : SameView t t0 := by
  have hn := h.nx_eq t.real List.mem_cons_self
  have hp := h.pv_eq List.mem_cons_self
  rw [Table.nx, Table.nx, if_pos rfl, if_pos h.real_eq] at hn
  rw [Table.pv, Table.pv, if_pos rfl, if_pos h.real_eq] at hp
  refine ⟨hn, hp, h.inv.count.trans h.inv0.count.symm, h.cur, h.rev, fun i => h.used_eq,
    fun i hi hu => ?_⟩
  have hl := (h.inv.used i hi).mp hu
  have hmem := List.mem_cons_of_mem t.real hl
  have hne : i ≠ t.real := hi.ne
  have hne0 : i ≠ t0.real := h.real_eq ▸ hne
  refine Node.ext (h.used_eq hi) ?_ ?_ (h.data i hl)
  · rw [← Table.pv_of_ne hne, ← Table.pv_of_ne hne0, h.pv_eq hmem]
  · rw [← Table.nx_of_ne hne, ← Table.nx_of_ne hne0, h.nx_eq i hmem]

theorem find_eq (k : K) : t.hashTableSearch k (short k) = t0.hashTableSearch k (short k) := by
  refine ext fun i => ?_
  rw [h.inv.search_some_iff, h.inv0.search_some_iff]
  exact and_congr_right fun hi => by rw [h.data i hi]

theorem searchEx_eq (k : K) : t.hashTableSearchEx k (short k) = t0.hashTableSearchEx k (short k) := by
  have hfind := h.find_eq k
  rw [Table.search_eq _ h.inv.init, Table.search_eq _ h.inv0.init] at hfind
  rw [Table.searchEx_eq _ h.inv.init, Table.searchEx_eq _ h.inv0.init, hfind]
  have hslots : t.slots (short k) = t0.slots (short k) := by rw [Table.slots, h.rows]; rfl
  have hused : (t.slots (short k)).find? (fun i => !(t.node i).bIsUsed) =
      (t.slots (short k)).find? fun i => !(t0.node i).bIsUsed :=
    List.find?_congr fun i hi => by rw [h.used_eq (Table.slots_lt hi)]
  rw [hused, hslots]

end

variable [DecidableEq K] [Inhabited K]

/-- One operation does the same on both. -/
theorem step (h : Alike short pid t t0 l s) (op : MapOp K) :
    ∃ t' t0' l' s', mapStep short pid (t, s) op = some (t', s') ∧
      mapStep short pid (t0, s) op = some (t0', s') ∧ Alike short pid t' t0' l' s' := by
  cases op with
  | insert k now =>
    by_cases hplace : ∃ i, t.hashTableSearchEx k (short k) = (some i, false)
    · obtain ⟨i, he⟩ := hplace
      have he0 := (h.searchEx_eq k).symm.trans he
      obtain ⟨t1, hr, h1, hs1, hc1, hv1⟩ := h.inv.insert_new he now
      obtain ⟨t2, hr2, h2, hs2, hc2, hv2⟩ := h.inv0.insert_new he0 now
      simp only [mapStep, insertKey, he, he0, hr, hr2, h.inv.keysStep_of_place he,
        h.inv0.keysStep_of_place he0]
      refine ⟨t1, t2, _, _, rfl, rfl, h1, h2, (hs1.rows.trans h.rows).trans hs2.rows.symm,
        fun j hj => ?_, (hc1.trans h.cur).trans hc2.symm, (hv1.trans h.rev).trans hv2.symm⟩
      rw [hs1.data, hs2.data]
      by_cases hji : j = i
      · simp [Table.setData, Table.setNode, hji]
      · simpa [Table.setData, Table.setNode, hji] using h.data j (by simpa [hji] using hj)
    · rw [not_exists] at hplace
      have hplace0 : ∀ i, t0.hashTableSearchEx k (short k) ≠ (some i, false) := by
        rwa [← h.searchEx_eq]
      simp only [mapStep, insertKey, h.inv.keysStep_of_no_place hplace,
        h.inv0.keysStep_of_no_place hplace0]
      exact ⟨t, t0, l, s, rfl, rfl, h⟩
  | remove k now =>
    cases hs : t.hashTableSearch k (short k) with
    | none =>
      have hs0 := (h.find_eq k).symm.trans hs
      simp only [mapStep, removeKey, hs, hs0, h.inv.keysStep_of_not_found hs,
        h.inv0.keysStep_of_not_found hs0]
      exact ⟨t, t0, l, s, rfl, rfl, h⟩
    | some i =>
      obtain ⟨hi, hk⟩ := h.inv.search_some_iff.mp hs
      obtain ⟨t1, hr, h1, hs1, hp1⟩ := h.inv.remove_old hi now
      obtain ⟨t2, hr2, h2, hs2, hp2⟩ := h.inv0.remove_old hi now
      have hmem := List.mem_cons_of_mem t.real hi
      simp only [mapStep, removeKey, hs, (h.find_eq k).symm.trans hs, hr, hr2]
      refine ⟨t1, t2, _, _, rfl, rfl, hk ▸ h1, (h.data i hi).symm.trans hk ▸ h2,
        (hs1.rows.trans h.rows).trans hs2.rows.symm, fun j hj => ?_, ?_, ?_⟩
      · rw [hs1.data, hs2.data, h.data j (List.mem_of_mem_erase hj)]
      · rw [hp1.cur, hp2.cur, h.cur, h.nx_eq i hmem]
      · rw [hp1.rev, hp2.rev, h.rev, h.pv_eq hmem]

theorem run_alike (h : Alike short pid t t0 l s) (ops : List (MapOp K)) :
    ∃ t' t0' l' s', run (mapStep short pid) ops (t, s) = some (t', s') ∧
      run (mapStep short pid) ops (t0, s) = some (t0', s') ∧ Alike short pid t' t0' l' s' := by
  induction ops generalizing t t0 l s with
  | nil => exact ⟨t, t0, l, s, rfl, rfl, h⟩
  | cons op ops ih =>
    obtain ⟨t1, t2, l1, s1, he, he0, h1⟩ := h.step op
    obtain ⟨t', t0', l', s', hr, hr0, h'⟩ := ih h1
    exact ⟨t', t0', l', s', by rw [run, he]; exact hr, by rw [run, he0]; exact hr0, h'⟩

end Alike

variable [DecidableEq K] [Inhabited K]

/-- A table that was reset behaves like the one that was created: after any operations
the list, its count, the cursors, the used nodes and what the searches find are the same. -/
def LikeNew (short : K → Nat) (pid : Nat) (t t0 : Table K) : Prop :=
  ∀ ops, ∃ t' t0' s, run (mapStep short pid) ops (t, []) = some (t', s) ∧
    run (mapStep short pid) ops (t0, []) = some (t0', s) ∧
    SameView t' t0' ∧ ∀ k, t'.hashTableSearch k (short k) = t0'.hashTableSearch k (short k) ∧
      t'.hashTableSearchEx k (short k) = t0'.hashTableSearchEx k (short k)

/-- **Reset** empties the table exactly when the used nodes lie in the memory that
`dwShareMemBytes` covers. -/
theorem reset_iff (short : K → Nat) (pid : Nat) (rows : Rows) (dwNodeCount : Nat)
    (cmp : K → K → Int) (hcmp : ∀ k d, cmp k d = 0 ↔ k = d) (ops : List (MapOp K)) :
    ∃ t s, run (mapStep short pid) ops (createHashTable rows dwNodeCount cmp, []) = some (t, s) ∧
      ((∀ i, i < t.real → (t.resetHashTable.node i).bIsUsed = false) ∧
        (∀ k, t.resetHashTable.hashTableSearch k (short k) = none) ∧
        LikeNew short pid t.resetHashTable (createHashTable rows dwNodeCount cmp) ↔
      ∀ i, i < t.real → (t.node i).bIsUsed = true → i < dwNodeCount) := by
  have h0 : Fresh pid (createHashTable rows dwNodeCount cmp) :=
    ⟨rfl, rfl, .inl rfl, rfl, rfl, rfl, fun _ _ => rfl⟩
  obtain ⟨t, s, l, hr, h, hs⟩ := h0.run_map short hcmp ops
  refine ⟨t, s, hr, ?_⟩
  have hreset : t.resetHashTable = _ := if_neg (by simp [h.init])
  have hnode (i : Nat) : t.resetHashTable.node i =
      if i < dwNodeCount then ⟨false, 0, 0, default⟩ else t.node i := by
    rw [hreset, hs.mem]
    rfl
  constructor
  · intro hempty i hi hu
    have := hempty.1 i hi
    by_contra hge
    rw [hnode, if_neg hge, hu] at this
    cases this
  · intro hall
    have hnone : ∀ i, i < t.real → (t.resetHashTable.node i).bIsUsed = false := by
      intro i hi
      rw [hnode]
      split
      · rfl
      · rename_i hge
        exact Bool.eq_false_iff.mpr fun hu => hge (hall i hi hu)
    have hfresh : Fresh pid t.resetHashTable := by
      rw [hreset] at hnone ⊢
      exact ⟨h.init, rfl, h.writer, rfl, rfl, rfl, hnone⟩
    have hinv := hfresh.inv short (by rw [hreset]; exact h.cmp)
    refine ⟨hnone, fun k => ?_, fun ops' => ?_⟩
    · rw [← not_isSome_iff_eq_none, hinv.search_isSome_iff]
      exact List.not_mem_nil
    · have hcur := hs.nil ⟨rfl, rfl⟩
      have hreal : t.real = rows.dwNodeNums.sum := by rw [Table.real, hs.rows]; rfl
      have halike : Alike short pid t.resetHashTable (createHashTable rows dwNodeCount cmp) [] [] :=
        ⟨hinv, h0.inv short hcmp, by rw [hreset]; exact hs.rows, by simp,
          by rw [hreset]; exact hcur.1.trans hreal, by rw [hreset]; exact hcur.2.trans hreal⟩
      obtain ⟨t', t0', l', s', hr', hr0, h'⟩ := halike.run_alike ops'
      exact ⟨t', t0', s', hr', hr0, h'.view, fun k => ⟨h'.find_eq k, h'.searchEx_eq k⟩⟩

/-- The rows of a table that is created for 12 nodes. -/
def rowsOfTwelve : Rows := ⟨nodeNums rowMax 12, by decide, by decide, by decide⟩

theorem reset_iff_first_row : ∃ t s,
    run (mapStep id 7) [.insert 5 1] (createHashTable rowsOfTwelve 12 eqCmp, []) = some (t, s) ∧
      ∀ k, t.resetHashTable.hashTableSearch k k = none := by
  obtain ⟨t, s, hr, h⟩ := reset_iff id 7 rowsOfTwelve 12 eqCmp
    eqCmp_iff [.insert 5 1]
  refine ⟨t, s, hr, (h.mpr ?_).2.1⟩
  cases hr
  decide +kernel

/-- Key 12 was stored in the second row: it is still found. -/
theorem reset_second_row : ((run (mapStep id 7) [.insert 1 1, .insert 12 2]
      (createHashTable rowsOfTwelve 12 eqCmp, [])).map fun st =>
        st.1.resetHashTable.hashTableSearch 12 12) = some (some 13) := by
  decide +kernel

end Reset

end DesPwd.L2.SharedHash
