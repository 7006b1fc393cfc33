import DesPwd.L2Machine.SharedHashStore
import Mathlib.Data.Nat.ChineseRemainder
import Mathlib.Data.Nat.Prime.Basic

/-!
# Search in a shared hash table without a node list

A `SharedHashTableNoList` has rows like the table of `SharedHash` but neither
node heads nor a list: a node is free when it compares equal to an empty key.
The comparisons are parameters; a node is its index over all rows.

* `hashTableSearchEx_empty`: a search in an empty table finds a free node.
* `searchRows_cells`: a search that finds no node with the key has looked at all
  nodes that such a key can be at.
* `row_moduli_iff`: the rows of a table with a list have different primes as
  their sizes; without one all rows have the size of the first.
-/
namespace DesPwd.L2.NoListHash

open L2.SharedHash List

/-- The rows that are left, from index `base` on, with the first free node met;
mirrors language/c_cpp/mt_shared_hash.c:1169-1187 -/
def searchRows (isKey isEmpty : Nat → Bool) (dwShortKey : Nat) :
    List Nat → Nat → Option Nat → Option (Nat × Bool)
  | [], _, pEmptyNode => pEmptyNode.map (·, false)
  | n :: rows, base, pEmptyNode =>
    let i := base + dwShortKey % n
    if isKey i then some (i, true)
    else searchRows isKey isEmpty dwShortKey rows (base + n)
      (if pEmptyNode.isNone && isEmpty i then some i else pEmptyNode)

/-- The index of the node and `dwIsFind`;
mirrors mt_shared_hash.c:1157-1189 -/
def hashTableSearchEx (rows : Rows) (isKey isEmpty : Nat → Bool) (dwShortKey : Nat) :
    Option (Nat × Bool) :=
  searchRows isKey isEmpty dwShortKey rows.dwNodeNums 0 none

variable {isKey isEmpty : Nat → Bool} {dwShortKey : Nat}

/-- The nodes that a search looks at, one in each row. -/
def cells (dwShortKey : Nat) : List Nat → Nat → List Nat
  | [], _ => []
  | n :: rows, base => (base + dwShortKey % n) :: cells dwShortKey rows (base + n)

/-- A search without success has seen that none of its nodes has the key. -/
theorem searchRows_cells {i : Nat} {b : Bool} : ∀ {rows base e},
    searchRows isKey isEmpty dwShortKey rows base e = some (i, b) →
      (e = some i ∨ i ∈ cells dwShortKey rows base) ∧
        (b = false → ∀ j ∈ cells dwShortKey rows base, isKey j = false)
  | [], _, e, h => by
    obtain ⟨e, rfl, ⟨⟩⟩ := Option.map_eq_some_iff.mp h
    exact ⟨.inl rfl, fun _ j hj => by cases hj⟩
  | n :: rows, base, e, h => by
    rw [searchRows] at h
    split at h
    · cases h
      exact ⟨.inr mem_cons_self, nofun⟩
    · obtain ⟨he, hno⟩ := searchRows_cells h
      grind [cells]

theorem searchRows_some {e : Nat} (hk : ∀ i, isKey i = false) : ∀ {rows} {base},
      searchRows isKey isEmpty dwShortKey rows base (some e) = some (e, false)
  | [], _ => rfl
  | n :: rows, base => by
    rw [searchRows, hk]
    exact searchRows_some hk

theorem hashTableSearchEx_empty (rows : Rows) (dwShortKey : Nat)
    (hk : ∀ i, isKey i = false) (he : ∀ i, isEmpty i = true) :
    ∃ i, hashTableSearchEx rows isKey isEmpty dwShortKey = some (i, false) := by
  obtain ⟨n, ns, hrows⟩ : ∃ n ns, rows.dwNodeNums = n :: ns :=
    exists_cons_of_length_pos (by rw [rows.length_eq]; decide)
  refine ⟨0 + dwShortKey % n, ?_⟩
  rw [hashTableSearchEx, hrows, searchRows, hk, he]
  exact searchRows_some hk

/-! ## Row moduli -/

/-- `dwNodeNums` of `n` rows as `InitHashTable_NoList` and `InitHashTable_NoList_Heap` choose
them: the loop of a row begins at `dwTmp` itself.
mirrors mt_shared_hash.c:1076-1085, 1115-1124 -/
def nodeNumsNoList : Nat → Nat → List Nat
  | 0, _ => []
  | n + 1, dwTmp => nextNodeNum (dwTmp + 1) :: nodeNumsNoList n (nextNodeNum (dwTmp + 1))

/-- Moduli that tell keys apart: different primes, so that two keys below the product of
two of them share at most one row. -/
structure Moduli (nums : List Nat) : Prop where
  prime : ∀ p ∈ nums, p.Prime
  nodup : nums.Nodup
  apart : ∀ a b, a ≠ b → nums.Pairwise fun p q =>
    a < p * q → b < p * q → ¬ (a % p = b % p ∧ a % q = b % q)

theorem Moduli.of_primes {nums : List Nat} (hp : ∀ p ∈ nums, p.Prime) (hnd : nums.Nodup) :
    Moduli nums where
  prime := hp
  nodup := hnd
  apart _ _ hab := hnd.imp_of_mem fun {p q} hpm hqm hne ha hb hm =>
    hab (Nat.ModEq.eq_of_lt_of_lt ((Nat.modEq_and_modEq_iff_modEq_mul
      ((Nat.coprime_primes (hp p hpm) (hp q hqm)).mpr hne)).mp hm) ha hb)

/-- The loop of `IsPrime` has found no divisor so far. -/
theorem isPrimeFrom_spec {d : Nat} :
    ∀ {fuel i}, isPrimeFrom d fuel i = true → d < fuel + i →
      (∀ m, 2 ≤ m → m < i → ¬ m ∣ d) → ∀ m, 2 ≤ m → m * m ≤ d → ¬ m ∣ d
  | 0, i, _, hf, hi, m, hm, hle => hi m hm (by have := Nat.le_mul_self m; omega)
  | fuel + 1, i, h, hf, hi, m, hm, hle => by
    rw [isPrimeFrom] at h
    split at h
    · split at h
      · cases h
      · rename_i hdvd
        refine isPrimeFrom_spec h (by omega) (fun k hk hlt => ?_) m hm hle
        rcases Nat.lt_succ_iff_lt_or_eq.mp hlt with hlt | rfl
        · exact hi k hk hlt
        · exact fun hd => hdvd (Nat.mod_eq_zero_of_dvd hd)
    · rename_i hbig
      refine hi m hm (Nat.lt_of_not_le fun hge => hbig ?_)
      exact (Nat.mul_le_mul hge hge).trans hle

theorem prime_of_isPrime {d : Nat} (hd : 2 ≤ d) (h : isPrime d = true) : d.Prime := by
  refine Nat.prime_def_le_sqrt.mpr ⟨hd, fun m hm hle => ?_⟩
  exact isPrimeFrom_spec h (by omega) (fun k hk hlt => by omega) m hm (Nat.le_sqrt.mp hle)

/-- The next row is the largest prime below, if there is one from 1002 on. -/
theorem nextNodeNum_spec {q : Nat} (hq : isPrime q = true) (h0 : 1002 ≤ q) :
    ∀ {d}, q < d → q ≤ nextNodeNum d ∧ nextNodeNum d < d ∧ isPrime (nextNodeNum d) = true
  | d + 1, hd => by
    rw [nextNodeNum]
    split
    · rename_i hc
      simp only [Bool.and_eq_true, decide_eq_true_eq, Bool.not_eq_true'] at hc
      have hne : q ≠ d := by
        rintro rfl
        rw [hq] at hc
        cases hc.2
      have := nextNodeNum_spec hq h0 (d := d) (by omega)
      exact ⟨this.1, by omega, this.2.2⟩
    · rename_i hc
      exact ⟨by omega, by omega, by simpa [show 1002 ≤ d by omega] using hc⟩

/-- Rows for which there are primes enough. -/
theorem nodeNums_spec : ∀ qs {d}, (∀ q ∈ qs, isPrime q = true ∧ 1002 ≤ q) →
      (d :: qs).Pairwise (· > ·) →
      (∀ p ∈ nodeNums qs.length d, p.Prime) ∧ (d :: nodeNums qs.length d).Pairwise (· > ·)
  | [], _, _, _ => ⟨by simp [nodeNums], by simp [nodeNums]⟩
  | q :: qs, d, hqs, hd => by
    obtain ⟨⟨hq, h0⟩, hqs⟩ := forall_mem_cons.mp hqs
    obtain ⟨hdq, hqq⟩ := pairwise_cons.mp hd
    obtain ⟨hle, hlt, hp⟩ := nextNodeNum_spec hq h0 (hdq q mem_cons_self)
    obtain ⟨hps, hpw⟩ := nodeNums_spec qs (d := nextNodeNum d) hqs (pairwise_cons.mpr
      ⟨fun x hx => lt_of_lt_of_le ((pairwise_cons.mp hqq).1 x hx) hle, (pairwise_cons.mp hqq).2⟩)
    refine ⟨forall_mem_cons.mpr ⟨prime_of_isPrime (by omega) hp, hps⟩, pairwise_cons.mpr ⟨?_, hpw⟩⟩
    exact forall_mem_cons.mpr ⟨hlt, fun x hx => ((pairwise_cons.mp hpw).1 x hx).trans hlt⟩

theorem nodeNumsNoList_eq {p : Nat} (hp : isPrime p = true) :
    ∀ k, nodeNumsNoList k p = replicate k p
  | 0 => rfl
  | k + 1 => by
    have hn : nextNodeNum (p + 1) = p := by
      rw [nextNodeNum, hp]
      simp
    rw [nodeNumsNoList, hn, nodeNumsNoList_eq hp k]
    rfl

/-- **Row moduli.** Those of `InitHashTable` are different primes; those of a table without
a list are exactly if it has no second row. -/
theorem row_moduli_iff {dwNodeCount : Nat} (h : 1100 ≤ dwNodeCount) :
    Moduli (nodeNums rowMax dwNodeCount) ∧
      ∀ k, Moduli (nodeNumsNoList k dwNodeCount) ↔ k ≤ 1 := by
  constructor
  · obtain ⟨hp, hpw⟩ := nodeNums_spec (d := dwNodeCount)
      [1097, 1093, 1091, 1087, 1069, 1063, 1061, 1051, 1049, 1039] (by decide +kernel)
      (pairwise_cons.mpr ⟨by simp; omega, by decide⟩)
    exact .of_primes hp ((pairwise_cons.mp hpw).2.imp ne_of_gt)
  · intro k
    obtain ⟨hle, -, hp⟩ := nextNodeNum_spec (q := 1097) (d := dwNodeCount + 1) (by decide +kernel)
      (by decide) (by omega)
    match k with
    | 0 => exact ⟨fun _ => by omega, fun _ => .of_primes (by simp [nodeNumsNoList]) nodup_nil⟩
    | k + 1 =>
      rw [nodeNumsNoList, nodeNumsNoList_eq hp]
      refine ⟨fun hm => ?_, fun hk => ?_⟩
      · by_contra hk
        exact absurd hm.nodup (by rw [← replicate_succ, nodup_replicate]; omega)
      · obtain rfl : k = 0 := by omega
        exact .of_primes (by simpa using prime_of_isPrime (by omega) hp) (nodup_singleton _)

theorem row_moduli_1100 : Moduli (nodeNums rowMax 1100) ∧
    ∀ k, Moduli (nodeNumsNoList k 1100) ↔ k ≤ 1 :=
  row_moduli_iff (by decide)

/-- All rows have 1097 nodes. -/
theorem no_list_rows_equal : nodeNumsNoList rowMax 1100 = replicate rowMax 1097 := by
  decide +kernel

end DesPwd.L2.NoListHash
