import DesPwd.Core.Run
import DesPwd.L2Machine.SharedHashList

/-!
# The shared hash table as a finite map

A key stands in one of its slots, one in each row; removals leave holes in
any row. `MapInv` says what makes this a map: every used node stands in a
slot of its own key, and no two hold the same key.

`hash_is_map`: after any sequence of insertions and removals of keys, the
search finds a node exactly for the keys that are in, the node holds the key,
no two used nodes hold one key, and a new key finds no node exactly when its
slots are all taken.
-/
namespace DesPwd.L2.SharedHash

open Rings Run List Table

/-! ## Search -/

namespace Table

variable {K : Type} {t : Table K} {k : K}

theorem mem_slotsFrom {i n : Nat} :
    ∀ {off} {nums}, (∀ m ∈ nums, 0 < m) → i ∈ slotsFrom n off nums →
      i < off + nums.sum
  | _, [], _, hi => by cases hi
  | off, m :: nums, hpos, hi => by
    have hm := Nat.mod_lt n (hpos m mem_cons_self)
    rw [sum_cons]
    rcases mem_cons.mp hi with rfl | hi
    · omega
    · have := mem_slotsFrom (fun x hx => hpos x (mem_cons_of_mem _ hx)) hi
      omega

theorem slots_lt {i n : Nat} (h : i ∈ t.slots n) : i < t.real := by
  have := mem_slotsFrom t.rows.pos h
  rwa [zero_add] at this

theorem searchFrom_eq (n : Nat) : ∀ off nums,
      t.searchFrom k n off nums = (slotsFrom n off nums).find? (t.isMatch k)
  | _, [] => rfl
  | off, m :: nums => by
    rw [searchFrom, slotsFrom, find?_cons, searchFrom_eq]
    cases t.isMatch k (off + n % m) <;> rfl

theorem search_eq (n : Nat) (h : t.bInitSuccess = true) :
    t.hashTableSearch k n = (t.slots n).find? (t.isMatch k) := by
  rw [hashTableSearch, if_neg (by simp [h])]
  exact searchFrom_eq n 0 _

theorem searchExFrom_eq (n : Nat) : ∀ off nums e,
      t.searchExFrom k n off nums e =
        match (slotsFrom n off nums).find? (t.isMatch k) with
        | some i => (some i, true)
        | none => (e.or ((slotsFrom n off nums).find? fun i => !(t.node i).bIsUsed), false)
  | _, [], e => by cases e <;> rfl
  | off, m :: nums, e => by
    rw [searchExFrom, slotsFrom, find?_cons, find?_cons]
    cases hm : t.isMatch k (off + n % m)
    · rw [searchExFrom_eq]
      cases hf : (slotsFrom n (off + m) nums).find? (t.isMatch k) with
      | some i => rfl
      | none => cases e <;> cases (t.node (off + n % m)).bIsUsed <;> simp
    · rfl

/-- The search for a place returns the key's own node, or else the first
empty slot. -/
theorem searchEx_eq (n : Nat) (h : t.bInitSuccess = true) : t.hashTableSearchEx k n =
      match (t.slots n).find? (t.isMatch k) with
      | some i => (some i, true)
      | none => ((t.slots n).find? fun i => !(t.node i).bIsUsed, false) := by
  rw [hashTableSearchEx, if_neg (by simp [h]), searchExFrom_eq]
  rfl

end Table

/-! ## The map -/

section Map

variable {K : Type} (short : K → Nat) (pid : Nat)

/-- What the callers do with a key. -/
inductive MapOp (K : Type) where
  | insert (k : K) (now : Nat)
  | remove (k : K) (now : Nat)

/-- Search for a place; when the key is not found but a node is returned,
write the key into it and insert it. -/
def insertKey [Inhabited K] (t : Table K) (k : K) (now : Nat) : Table K :=
  match t.hashTableSearchEx k (short k) with
  | (some i, false) => ((t.setData i k).insertHashNode i pid now).1
  | _ => t

/-- Search for the key; when it is found, remove its node. -/
def removeKey [Inhabited K] (t : Table K) (k : K) (now : Nat) : Table K :=
  match t.hashTableSearch k (short k) with
  | some i => (t.removeHashNode i pid now).1
  | none => t

/-- The keys that were inserted and not removed since; a new key is in when one
of its slots is free. -/
def keysStep [DecidableEq K] (t : Table K) (s : List K) : MapOp K → List K
  | .insert k _ =>
    if k ∉ s ∧ ∃ i ∈ t.slots (short k), (t.node i).bIsUsed = false then k :: s else s
  | .remove k _ => s.filter fun x => x ≠ k

/-- One operation on the table, and on the set of the keys. -/
def mapStep [DecidableEq K] [Inhabited K] (st : Table K × List K) (op : MapOp K) :
    Option (Table K × List K) :=
  some (match op with
    | .insert k now => insertKey short pid st.1 k now
    | .remove k now => removeKey short pid st.1 k now, keysStep short st.1 st.2 op)

/-- An empty table that this process may write. -/
structure Fresh (t : Table K) : Prop where
  init : t.bInitSuccess = true
  flag : t.bHashUseFlag = false
  writer : t.dwWriteProcessId = 0 ∨ t.dwWriteProcessId = pid
  start : t.dwNodeStartIndex = t.real
  stop : t.dwNodeEndIndex = t.real
  count : t.dwNodeUseCount = 0
  unused : ∀ i, i < t.real → (t.node i).bIsUsed = false

/-- No cursor stands on a node. -/
def AtNil (t : Table K) : Prop := t.dwCurIndex = t.real ∧ t.dwCurIndexRevers = t.real

/-- What an operation leaves as it is. -/
structure Kept (t t' : Table K) : Prop extends Shape t t' where
  nil : AtNil t → AtNil t'

theorem Kept.refl (t : Table K) : Kept t t := ⟨⟨rfl, rfl⟩, id⟩

theorem Kept.trans {t t' t'' : Table K} (h : Kept t t') (h' : Kept t' t'') : Kept t t'' :=
  ⟨h.toShape.trans h'.toShape, h'.nil ∘ h.nil⟩

/-- The table `t` with the used nodes `l` holds exactly the keys `s`. -/
structure MapInv (t : Table K) (l : List Nat) (s : List K) : Prop extends ListInv t l where
  flag : t.bHashUseFlag = false
  writer : t.dwWriteProcessId = 0 ∨ t.dwWriteProcessId = pid
  cmp : ∀ k d, t.fun_cmp k d = 0 ↔ k = d
  placed : ∀ i ∈ l, i ∈ t.slots (short (t.node i).data)
  uniq : ∀ i ∈ l, ∀ j ∈ l, (t.node i).data = (t.node j).data → i = j
  keys : ∀ k, k ∈ s ↔ ∃ i ∈ l, (t.node i).data = k

variable {short pid} {t : Table K} {l : List Nat} {s : List K} {k : K}

namespace MapInv

variable {i : Nat}

variable (h : MapInv short pid t l s)
include h

theorem isMatch_iff (hi : i < t.real) :
    t.isMatch k i = true ↔ i ∈ l ∧ (t.node i).data = k := by
  rw [isMatch, Bool.and_eq_true, h.used i hi, beq_iff_eq, h.cmp, eq_comm]

/-- The search finds a node exactly for the keys of the map. -/
theorem search_some_iff :
    t.hashTableSearch k (short k) = some i ↔ i ∈ l ∧ (t.node i).data = k := by
  rw [search_eq _ h.init]
  constructor
  · intro hf
    have hi := slots_lt (mem_of_find?_eq_some hf)
    exact (h.isMatch_iff hi).mp (find?_some hf)
  · rintro ⟨hi, rfl⟩
    cases hf : (t.slots (short (t.node i).data)).find? (t.isMatch (t.node i).data) with
    | none =>
      have := find?_eq_none.mp hf i (h.placed i hi)
      exact absurd ((h.isMatch_iff (h.lt i hi)).mpr ⟨hi, rfl⟩) this
    | some j =>
      have hj := slots_lt (mem_of_find?_eq_some hf)
      obtain ⟨hjl, hjd⟩ := (h.isMatch_iff hj).mp (find?_some hf)
      rw [h.uniq j hjl i hi hjd]

theorem search_isSome_iff :
    (t.hashTableSearch k (short k)).isSome ↔ k ∈ s := by
  rw [Option.isSome_iff_exists, h.keys]
  exact exists_congr fun i => h.search_some_iff

theorem searchEx_of_not_mem (hk : k ∉ s) :
    t.hashTableSearchEx k (short k) =
      ((t.slots (short k)).find? fun i => !(t.node i).bIsUsed, false) := by
  have hnone : (t.slots (short k)).find? (t.isMatch k) = none := by
    rw [← search_eq _ h.init, ← Option.not_isSome_iff_eq_none, h.search_isSome_iff]
    exact hk
  rw [searchEx_eq _ h.init, hnone]

theorem searchEx_place
    (he : t.hashTableSearchEx k (short k) = (some i, false)) :
    k ∉ s ∧ i ∈ t.slots (short k) ∧ (t.node i).bIsUsed = false := by
  have hk : k ∉ s := by
    intro hm
    obtain ⟨j, hj⟩ := Option.isSome_iff_exists.mp (h.search_isSome_iff.mpr hm)
    rw [search_eq _ h.init] at hj
    rw [searchEx_eq _ h.init, hj] at he
    cases he
  rw [h.searchEx_of_not_mem hk] at he
  have hf := (Prod.mk.inj he).1
  exact ⟨hk, mem_of_find?_eq_some hf, by simpa using find?_some hf⟩

theorem insert_new [Inhabited K]
    (he : t.hashTableSearchEx k (short k) = (some i, false)) (now : Nat) :
    ∃ t', (t.setData i k).insertHashNode i pid now = (t', 0) ∧
      MapInv short pid t' (l ++ [i]) (k :: s) ∧ Same (t.setData i k) t' ∧
      t'.dwCurIndex = t.dwCurIndex ∧ t'.dwCurIndexRevers = t.dwCurIndexRevers := by
  obtain ⟨hk, hi, hu⟩ := h.searchEx_place he
  have hlt := slots_lt hi
  have hil : i ∉ l := fun hm => by simp [(h.used i hlt).mpr hm] at hu
  have hset := h.toListInv.setData hlt k
  obtain ⟨t', hr, h', hf, hs, hcur⟩ := hset.insertHashNode h.writer h.flag hlt hil now
  have hdi : (t'.node i).data = k := by
    rw [hs.data]; simp [setData, setNode]
  have hdj : ∀ j ∈ l, (t'.node j).data = (t.node j).data := by
    intro j hj
    have hji : j ≠ i := by rintro rfl; exact hil hj
    rw [hs.data]; simp [setData, setNode, hji]
  have hslots := hs.slots_eq
  have hnew : ∀ j ∈ l, (t.node j).data ≠ k := fun j hj he => hk ((h.keys k).mpr ⟨j, hj, he⟩)
  refine ⟨t', hr, ⟨h', hf, hs.writer ▸ h.writer, hs.cmp ▸ h.cmp, ?_, ?_, ?_⟩, hs, hcur⟩
  · intro j hj
    rw [hslots]
    rcases mem_append.mp hj with hj | hj
    · rw [hdj j hj]; exact h.placed j hj
    · rw [mem_singleton.mp hj, hdi]; exact hi
  · intro j hj j' hj' he
    rcases mem_append.mp hj with hj | hj <;> rcases mem_append.mp hj' with hj' | hj'
    · rw [hdj j hj, hdj j' hj'] at he
      exact h.uniq j hj j' hj' he
    · rw [mem_singleton.mp hj', hdi, hdj j hj] at he
      exact absurd he (hnew j hj)
    · rw [mem_singleton.mp hj, hdi, hdj j' hj'] at he
      exact absurd he.symm (hnew j' hj')
    · rw [mem_singleton.mp hj, mem_singleton.mp hj']
  · intro x
    rw [mem_cons, h.keys]
    constructor
    · rintro (rfl | ⟨j, hj, rfl⟩)
      · exact ⟨i, by simp, hdi⟩
      · exact ⟨j, mem_append_left _ hj, hdj j hj⟩
    · rintro ⟨j, hj, rfl⟩
      rcases mem_append.mp hj with hj | hj
      · exact .inr ⟨j, hj, (hdj j hj).symm⟩
      · rw [mem_singleton.mp hj]; exact .inl hdi

variable [DecidableEq K]

theorem keysStep_of_place (he : t.hashTableSearchEx k (short k) = (some i, false)) (now : Nat) :
    keysStep short t s (.insert k now) = k :: s := by
  obtain ⟨hk, hi, hu⟩ := h.searchEx_place he
  exact if_pos ⟨hk, i, hi, hu⟩

theorem keysStep_of_no_place (he : ∀ i, t.hashTableSearchEx k (short k) ≠ (some i, false)) (now : Nat) :
    keysStep short t s (.insert k now) = s := by
  refine if_neg ?_
  rintro ⟨hk, i, hi, hu⟩
  cases hf : (t.slots (short k)).find? fun i => !(t.node i).bIsUsed with
  | none => simpa [hu] using find?_eq_none.mp hf i hi
  | some j => exact he j (by rw [h.searchEx_of_not_mem hk, hf])

theorem keysStep_of_not_found (hs : t.hashTableSearch k (short k) = none) (now : Nat) :
    keysStep short t s (.remove k now) = s := by
  refine filter_eq_self.mpr fun x hx => ?_
  rw [← h.search_isSome_iff] at hx
  rw [decide_eq_true_eq]
  rintro rfl
  rw [hs] at hx
  cases hx

variable [Inhabited K]

/-- **Insert.** -/
theorem insertKey (now : Nat) :
    ∃ l', MapInv short pid (insertKey short pid t k now) l' (keysStep short t s (.insert k now)) ∧
      Kept t (SharedHash.insertKey short pid t k now) := by
  unfold SharedHash.insertKey
  split
  · rename_i i he
    obtain ⟨t', hr, h', hs, hc, hv⟩ := h.insert_new he now
    have hreal := hs.real_eq
    rw [h.keysStep_of_place he, hr]
    refine ⟨l ++ [i], h', ⟨hs.rows, hs.mem⟩, fun hnil => ?_⟩
    rw [AtNil, hc, hv, hreal]
    exact hnil
  · rename_i he
    rw [h.keysStep_of_no_place he]
    exact ⟨l, h, .refl t⟩

theorem remove_old (hi : i ∈ l) (now : Nat) :
    ∃ t', t.removeHashNode i pid now = (t', 0) ∧
      MapInv short pid t' (l.erase i) (s.filter fun x => x ≠ (t.node i).data) ∧ Same t t' ∧
      ListInv.Passed t t' i := by
  obtain ⟨l1, l2, -, hl, herase⟩ := exists_erase_eq hi
  obtain ⟨t', hr, h', hf, hsame, hpass⟩ := h.toListInv.removeHashNode h.writer h.flag hl now
  have hnd : l.Nodup := (nodup_cons.mp h.ring.nodup).2
  have hslots := hsame.slots_eq
  refine ⟨t', hr, ⟨herase ▸ h', hf, hsame.writer ▸ h.writer, hsame.cmp ▸ h.cmp, ?_, ?_, ?_⟩, hsame,
    hpass⟩
  · intro j hj
    rw [hslots, hsame.data]; exact h.placed j (mem_of_mem_erase hj)
  · intro j hj j' hj' he
    rw [hsame.data, hsame.data] at he
    exact h.uniq j (mem_of_mem_erase hj) j' (mem_of_mem_erase hj') he
  · intro x
    rw [mem_filter, h.keys, decide_eq_true_eq]
    constructor
    · rintro ⟨⟨j, hj, rfl⟩, hne⟩
      refine ⟨j, (mem_erase_of_ne ?_).mpr hj, hsame.data j⟩
      rintro rfl
      exact hne rfl
    · rintro ⟨j, hj, rfl⟩
      obtain ⟨hne, hj⟩ := hnd.mem_erase_iff.mp hj
      rw [hsame.data]
      exact ⟨⟨j, hj, rfl⟩, fun he => hne (h.uniq j hj i hi he)⟩

/-- **Remove.** -/
theorem removeKey (now : Nat) :
    ∃ l', MapInv short pid (removeKey short pid t k now) l' (keysStep short t s (.remove k now)) ∧
      Kept t (SharedHash.removeKey short pid t k now) := by
  unfold SharedHash.removeKey
  split
  · rename_i i hs
    obtain ⟨hi, rfl⟩ := h.search_some_iff.mp hs
    obtain ⟨t', hr, h', hs, hp⟩ := h.remove_old hi now
    have hreal := hs.real_eq
    have hne : t.real ≠ i := Nat.ne_of_gt (h.lt i hi)
    rw [hr]
    refine ⟨_, h', hs.toShape, fun hnil => ?_⟩
    rw [AtNil, hp.cur, hp.rev, hnil.1, hnil.2, if_neg hne, if_neg hne, hreal]
    exact ⟨rfl, rfl⟩
  · rename_i hs
    rw [h.keysStep_of_not_found hs]
    exact ⟨l, h, .refl t⟩

end MapInv

theorem fresh_init [Inhabited K] (rows : Rows) (cmp : K → K → Int) (bAccessCheck : Bool) :
    Fresh pid (initHashTableForWrite rows cmp bAccessCheck) :=
  ⟨rfl, rfl, .inl rfl, rfl, rfl, rfl, fun _ _ => rfl⟩

theorem Fresh.listInv (h : Fresh pid t) : ListInv t [] where
  init := h.init
  ring := IsRing.nil_iff.mpr (by simp [nx, pv, h.start, h.stop])
  lt i hi := by cases hi
  used i hi := by simp [h.unused i hi]
  count := h.count

theorem Fresh.inv (h : Fresh pid t) (short : K → Nat) (hcmp : ∀ k d, t.fun_cmp k d = 0 ↔ k = d) :
    MapInv short pid t [] [] where
  toListInv := h.listInv
  flag := h.flag
  writer := h.writer
  cmp := hcmp
  placed i hi := by cases hi
  uniq i hi := by cases hi
  keys k := by simp

variable [DecidableEq K] [Inhabited K]

theorem mapStep_inv {t0 : Table K} (st : Table K × List K) (op : MapOp K)
    (h : ∃ l, MapInv short pid st.1 l st.2 ∧ Kept t0 st.1) :
    ∃ st', mapStep short pid st op = some st' ∧
      ∃ l, MapInv short pid st'.1 l st'.2 ∧ Kept t0 st'.1 := by
  obtain ⟨l, h, hs⟩ := h
  refine ⟨_, rfl, ?_⟩
  cases op with
  | insert k now =>
    obtain ⟨l', h', hs'⟩ := h.insertKey (k := k) now
    exact ⟨l', h', hs.trans hs'⟩
  | remove k now =>
    obtain ⟨l', h', hs'⟩ := h.removeKey (k := k) now
    exact ⟨l', h', hs.trans hs'⟩

theorem Fresh.run_map {t0 : Table K} (h0 : Fresh pid t0) (short : K → Nat)
    (hcmp : ∀ k d, t0.fun_cmp k d = 0 ↔ k = d) (ops : List (MapOp K)) :
    ∃ t s l, run (mapStep short pid) ops (t0, []) = some (t, s) ∧ MapInv short pid t l s ∧
      Kept t0 t := by
  obtain ⟨⟨t, s⟩, hr, l, h⟩ := run_inv_total mapStep_inv ops
    (s := (t0, [])) ⟨[], h0.inv short hcmp, .refl t0⟩
  exact ⟨t, s, l, hr, h⟩

/-- **Finite map.** -/
theorem hash_is_map (short : K → Nat) (pid : Nat) (t0 : Table K) (h0 : Fresh pid t0)
    (hcmp : ∀ k d, t0.fun_cmp k d = 0 ↔ k = d) (ops : List (MapOp K)) :
    ∃ t s, run (mapStep short pid) ops (t0, []) = some (t, s) ∧
      (∀ k, (t.hashTableSearch k (short k)).isSome ↔ k ∈ s) ∧
      (∀ k i, t.hashTableSearch k (short k) = some i →
        i < t.real ∧ (t.node i).bIsUsed = true ∧ (t.node i).data = k) ∧
      (∀ i j, i < t.real → j < t.real → (t.node i).bIsUsed = true → (t.node j).bIsUsed = true →
        (t.node i).data = (t.node j).data → i = j) ∧
      (∀ k, k ∉ s → ((t.hashTableSearchEx k (short k)).1 = none ↔
        ∀ i ∈ t.slots (short k), (t.node i).bIsUsed = true)) := by
  obtain ⟨t, s, l, hr, hi, -⟩ := h0.run_map short hcmp ops
  refine ⟨t, s, hr, fun k => hi.search_isSome_iff, fun k i hs => ?_, fun i j h1 h2 u1 u2 hd => ?_,
    fun k hk => ?_⟩
  · obtain ⟨hl, hd⟩ := hi.search_some_iff.mp hs
    exact and_assoc.mp ⟨hi.mem_iff.mp hl, hd⟩
  · exact hi.uniq i ((hi.used i h1).mp u1) j ((hi.used j h2).mp u2) hd
  · rw [hi.searchEx_of_not_mem hk]
    simp

end Map

/-- Ten rows of two nodes. -/
def twentyNodes : Rows := ⟨List.replicate 10 2, rfl, by decide, by decide⟩

def eqCmp (k d : Nat) : Int := if k = d then 0 else 1

theorem eqCmp_iff (k d : Nat) : eqCmp k d = 0 ↔ k = d := by
  unfold eqCmp
  split <;> simp_all

/-- One of two keys is removed again. -/
theorem hash_is_map_two_keys : ∃ t, run (mapStep id 7) [.insert 5 1, .insert 7 2, .remove 5 3]
        (initHashTableForWrite twentyNodes eqCmp true, []) = some (t, [7]) ∧
      ∀ k, (t.hashTableSearch k k).isSome ↔ k ∈ [7] := by
  obtain ⟨t, s, hr, h, _⟩ := hash_is_map id 7 (initHashTableForWrite twentyNodes eqCmp true)
    (fresh_init _ _ true) eqCmp_iff [.insert 5 1, .insert 7 2, .remove 5 3]
  obtain rfl : s = [7] := by
    cases hr
    decide +kernel
  exact ⟨t, hr, h⟩

end DesPwd.L2.SharedHash
