import DesPwd.Core.Bytes
import DesPwd.Core.Horspool
import Mathlib.Data.List.GetD

/-!
# mtagent_api_open: the key search

`bmh_get_jump_table` fills the shifts of a key, `bmh_is_match` searches a log
text with them. A character is signed: the table is filled at the index
`(int)pszPat[i]`, which is negative for a byte above 127, and read at the index
`(unsigned char)pszTxt[i]`, which is not. The log texts and keys are far from
the limits of `int`, in which the source keeps the positions.

* `bmh_get_jump_table_shift`: the shifts of a key of bytes below 128 are safe.
* `key_search_exact`: the search finds the smallest position of the key in
  every text, and the fill stays inside the table, exactly when no byte of the
  key but the last is above 127.
* `key_search_lost`: a key and a text that has it, where the search returns -1.
-/
namespace DesPwd.L1.OiBmh

open Bytes Horspool List

/-- A string in memory, without the zero that ends it. -/
structure CString where
  bytes : Bytes
  noNul : 0 ∉ bytes

/-- mirrors lib/mtagent_api_open/oi_bmh.h:35 -/
def bmhJumpTableSize : Nat := 256

/-! ## The table -/

/-- The first loop: every entry is the length of the pattern. -/
def fillWrites (pszPat : Bytes) : List (Int × Int) :=
  (List.range bmhJumpTableSize).map fun i : Nat => ((i : Int), (pszPat.length : Int))

/-- The first `n` rounds of the second loop; the index is a signed character. -/
def patWrites (pszPat : Bytes) (n : Nat) : List (Int × Int) :=
  (List.range n).map fun i : Nat =>
    ((pszPat.getD i 0).toInt8.toInt, (pszPat.length : Int) - i - 1)

/-- The writes to `piJmpTab` in their order, each an index and a value. -/
def jumpTableWrites (pszPat : Bytes) : List (Int × Int) :=
  fillWrites pszPat ++ patWrites pszPat (pszPat.length - 1)

def writeAll (ws : List (Int × Int)) (m : Int → Int) : Int → Int :=
  ws.foldl (fun m w => Function.update m w.1 w.2) m

/-- `mem` is the memory around the table, by its offset from `piJmpTab`.
mirrors lib/mtagent_api_open/oi_bmh.cpp:35-44 -/
def bmhGetJumpTable (pszPat : Bytes) (mem : Int → Int) : Int → Int :=
  writeAll (jumpTableWrites pszPat) mem

/-! ## The search

The positions are those of the source plus one: its `i` starts at
`p_len - 1`, its `j` and `k` may end at -1. -/

/-- The inner loop, from the last character back; `none` at a difference. -/
def compareBack (pszTxt pszPat : Bytes) : Nat → Nat → Option Nat
  | 0, k => some k
  | j + 1, k => if pszTxt[k - 1]? = pszPat[j]? then compareBack pszTxt pszPat j (k - 1) else none

/-- The outer loop; `none` when it does not end or leaves the text in front. -/
def matchFrom (pszTxt pszPat : Bytes) (piJmpTab : Int → Int) : Nat → Nat → Option Int
  | 0, _ => none
  | fuel + 1, i =>
    if i ≤ pszTxt.length then
      match compareBack pszTxt pszPat pszPat.length i with
      | some k => some k
      | none =>
        let next := (i : Int) + piJmpTab (pszTxt.getD (i - 1) 0).toNat
        if next < 0 then none else matchFrom pszTxt pszPat piJmpTab fuel next.toNat
    else some (-1)

/-- mirrors oi_bmh.cpp:46-62 -/
def bmhIsMatch (pszTxt pszPat : Bytes) (piJmpTab : Int → Int) : Option Int :=
  matchFrom pszTxt pszPat piJmpTab (pszTxt.length + 2) pszPat.length

/-! ## What the table holds -/

theorem writeAll_append (ws vs : List (Int × Int)) (m : Int → Int) :
    writeAll (ws ++ vs) m = writeAll vs (writeAll ws m) := by
  simp [writeAll]

theorem writeAll_of_forall_ne {ws : List (Int × Int)} {k : Int} (h : ∀ w ∈ ws, w.1 ≠ k)
    (m : Int → Int) : writeAll ws m k = m k := by
  induction ws generalizing m with
  | nil => rfl
  | cons w ws ih =>
    have hw := h w mem_cons_self
    have hrest : ∀ v ∈ ws, v.1 ≠ k := fun v hv => h v (mem_cons_of_mem _ hv)
    calc writeAll (w :: ws) m k = writeAll ws (Function.update m w.1 w.2) k := rfl
      _ = Function.update m w.1 w.2 k := ih hrest _
      _ = m k := Function.update_of_ne (Ne.symm hw) _ _

theorem writeAll_range (v : Int) (m : Int → Int) {k : Nat} :
    ∀ {n}, k < n → writeAll ((List.range n).map fun i : Nat => ((i : Int), v)) m k = v := by
  intro n
  induction n with
  | zero => omega
  | succ n ih =>
    intro hk
    rw [range_succ, map_append, writeAll_append]
    by_cases hn : k = n
    · simp [writeAll, hn]
    · have hne : (n : Int) ≠ k := by omega
      rw [writeAll_of_forall_ne (by simpa using hne)]
      exact ih (by omega)

theorem writeAll_fillWrites (pat : Bytes) (m : Int → Int) (c : UInt8) :
    writeAll (fillWrites pat) m c.toNat = pat.length :=
  writeAll_range _ m c.toNat_lt

/-! A character as an index. -/

theorem toInt8_toInt_eq (b : UInt8) :
    b.toInt8.toInt = if b < 128 then (b.toNat : Int) else b.toNat - 256 := by
  have hb : b.toInt8.toInt = b.toBitVec.toInt := rfl
  have h128 : b < 128 ↔ b.toNat < 128 := UInt8.lt_iff_toNat_lt
  rw [hb, BitVec.toInt_eq_toNat_cond]
  simp only [UInt8.toNat_toBitVec, h128]
  split <;> split <;> omega

variable {b c : UInt8} {pat : Bytes} {i : Nat}

theorem toInt8_toInt_ne_of_ge (hc : ¬c < 128) : b.toInt8.toInt ≠ c.toNat := by
  have hb := b.toNat_lt
  have h128 : ∀ x : UInt8, x < 128 ↔ x.toNat < 128 := fun _ => UInt8.lt_iff_toNat_lt
  rw [h128] at hc
  rw [toInt8_toInt_eq]
  split
  · rename_i hlt
    rw [h128] at hlt
    omega
  · omega

theorem toInt8_toInt_eq_toNat (hb : b < 128) : b.toInt8.toInt = b.toNat := by
  rw [toInt8_toInt_eq, if_pos hb]

theorem toInt8_toInt_neg (hb : ¬b < 128) : b.toInt8.toInt < 0 := by
  have := b.toNat_lt
  rw [toInt8_toInt_eq, if_neg hb]
  omega

/-- Every byte of the pattern that the second loop takes as an index. -/
def LowBytes (pat : Bytes) : Prop := ∀ b ∈ pat.dropLast, b < 128

instance (pat : Bytes) : Decidable (LowBytes pat) :=
  List.decidableBAll (· < 128) pat.dropLast

theorem mem_dropLast_iff : b ∈ pat.dropLast ↔ ∃ i, i < pat.length - 1 ∧ pat[i]? = some b := by
  rw [mem_iff_getElem?]
  simp only [getElem?_dropLast]
  constructor
  · rintro ⟨i, hi⟩
    split at hi
    · exact ⟨i, ‹_›, hi⟩
    · cases hi
  · rintro ⟨i, hlt, hi⟩
    exact ⟨i, by rw [if_pos hlt, hi]⟩

theorem LowBytes.getD (h : LowBytes pat) (hi : i < pat.length - 1) : pat.getD i 0 < 128 := by
  have hlt : i < pat.length := by omega
  rw [getD_eq_getElem _ _ hlt]
  exact h _ (mem_dropLast_iff.mpr ⟨i, hi, getElem?_eq_getElem hlt⟩)

/-- What `n` rounds of the second loop leave in the entry of a character: a
shift over none of the places it has among the first `n`. -/
structure Entry (pat : Bytes) (n : Nat) (c : UInt8) (v : Int) : Prop where
  pos : 0 < v
  le : v ≤ pat.length
  safe : ∀ d : Nat, 0 < d → (d : Int) < v → pat.length - 1 - d < n →
    pat[pat.length - 1 - d]? ≠ some c

/-- The induction over the rounds of the second loop. -/
theorem writeAll_patWrites_entry (hp : pat ≠ []) (hlow : LowBytes pat)
    (m : Int → Int) (hm : ∀ c : UInt8, m c.toNat = pat.length) (c : UInt8) :
    ∀ n, n ≤ pat.length - 1 → Entry pat n c (writeAll (patWrites pat n) m c.toNat) := by
  intro n
  have hpos := length_pos_iff.mpr hp
  induction n with
  | zero =>
    intro _
    have hv : writeAll (patWrites pat 0) m c.toNat = pat.length := hm c
    exact ⟨by omega, by omega, fun _ _ _ h => absurd h (Nat.not_lt_zero _)⟩
  | succ n ih =>
    intro hn
    have hlt : n < pat.length := by omega
    have hidx : (pat.getD n 0).toInt8.toInt = (pat.getD n 0).toNat :=
      toInt8_toInt_eq_toNat (hlow.getD (by omega))
    rw [patWrites, range_succ, map_append, ← patWrites, map_singleton, writeAll_append, hidx]
    by_cases hc : pat.getD n 0 = c
    · -- the entry now is the distance of place `n` to the end
      have hv : writeAll [(((pat.getD n 0).toNat : Int), (pat.length : Int) - n - 1)]
          (writeAll (patWrites pat n) m) c.toNat = (pat.length : Int) - n - 1 := by
        rw [hc]
        exact Function.update_self _ _ _
      exact ⟨by omega, by omega, fun d _ hd hlt' => by omega⟩
    · have hne : ((pat.getD n 0).toNat : Int) ≠ c.toNat := by
        intro h
        exact hc (UInt8.toNat_inj.mp (by exact_mod_cast h))
      rw [writeAll_of_forall_ne (by simpa using hne)]
      obtain ⟨h1, h2, h3⟩ := ih (by omega)
      refine ⟨h1, h2, fun d hd0 hd hdn => ?_⟩
      rcases Nat.lt_succ_iff_lt_or_eq.mp hdn with hdn | hdn
      · exact h3 d hd0 hd hdn
      · rw [hdn, getElem?_eq_getElem hlt]
        rw [getD_eq_getElem _ _ hlt] at hc
        simpa using hc

theorem bmhGetJumpTable_entry (hp : pat ≠ []) (hlow : LowBytes pat) (mem : Int → Int) (c : UInt8) :
    Entry pat (pat.length - 1) c (bmhGetJumpTable pat mem c.toNat) := by
  unfold bmhGetJumpTable jumpTableWrites
  rw [writeAll_append]
  exact writeAll_patWrites_entry hp hlow _ (writeAll_fillWrites pat mem) c _ le_rfl

/-- The shifts of a table. -/
def shiftOf (piJmpTab : Int → Int) (c : UInt8) : Nat := (piJmpTab c.toNat).toNat

theorem bmh_get_jump_table_shift (hp : pat ≠ []) (hlow : LowBytes pat) (mem : Int → Int) :
    Shift pat (shiftOf (bmhGetJumpTable pat mem)) where
  le c := by
    have h := bmhGetJumpTable_entry hp hlow mem c
    have := h.le
    unfold shiftOf
    omega
  safe c d hd0 hd := by
    have h := bmhGetJumpTable_entry hp hlow mem c
    have hle := h.le
    unfold shiftOf at hd
    exact h.safe d hd0 (by omega) (by omega)

/-- A byte above 127 has the entry of a byte that is not in the pattern. -/
theorem bmhGetJumpTable_of_ge (pat : Bytes) (mem : Int → Int) (hc : ¬c < 128) :
    bmhGetJumpTable pat mem c.toNat = pat.length := by
  have hne : ∀ w ∈ patWrites pat (pat.length - 1), w.1 ≠ c.toNat := by
    intro w hw
    obtain ⟨i, _, rfl⟩ := mem_map.mp hw
    exact toInt8_toInt_ne_of_ge hc
  unfold bmhGetJumpTable jumpTableWrites
  rw [writeAll_append, writeAll_of_forall_ne hne]
  exact writeAll_fillWrites pat mem c

/-! ## What the search returns -/

theorem compareBack_eq (txt pat : Bytes) {n e : Nat} (hn : n ≤ e) : compareBack txt pat n e =
      if ∀ m < n, txt[e - n + m]? = pat[m]? then some (e - n) else none := by
  induction n generalizing e with
  | zero => simp [compareBack]
  | succ n ih =>
    have hidx : e - 1 - n = e - (n + 1) := by omega
    have hlast : e - (n + 1) + n = e - 1 := by omega
    rw [compareBack, ih (by omega), hidx]
    simp only [Nat.lt_succ_iff_lt_or_eq, or_imp, forall_and, forall_eq, hlast]
    by_cases h : txt[e - 1]? = pat[n]? <;> simp [h]

theorem compareBack_whole (txt pat : Bytes) [Decidable (OccursAt pat txt i)] :
    compareBack txt pat pat.length (i + pat.length) =
      if OccursAt pat txt i then some i else none := by
  rw [compareBack_eq txt pat (by omega), Nat.add_sub_cancel]
  have hiff : (∀ m < pat.length, txt[i + m]? = pat[m]?) ↔ OccursAt pat txt i := by
    rw [occursAt_iff]
    constructor
    · intro h n hn
      rw [h n hn, getElem?_eq_getElem hn]
    · intro h n hn
      rw [h n hn, getElem?_eq_getElem hn]
  simp [hiff]

/-- The number that stands for a position. -/
def ofPos : Option Nat → Int
  | some i => i
  | none => -1

/-- The induction over the outer loop: each round has passed all positions
before its window. -/
theorem matchFrom_isFirst {txt : Bytes} {tab : Int → Int} (hp : pat ≠ [])
    (hs : Shift pat (shiftOf tab)) (hpos : ∀ c : UInt8, 0 < tab c.toNat) :
    ∀ {fuel i}, txt.length + 2 ≤ fuel + i + pat.length → 0 < fuel →
      Passed pat txt (i + pat.length) →
      ∃ r, IsFirst pat txt r ∧ matchFrom txt pat tab fuel (i + pat.length) = some (ofPos r) := by
  classical
  intro fuel
  induction fuel with
  | zero => omega
  | succ fuel ih =>
    intro i hfuel _ hpass
    have hlen := length_pos_iff.mpr hp
    by_cases hin : i + pat.length ≤ txt.length
    · rw [matchFrom, if_pos hin, compareBack_whole]
      by_cases hocc : OccursAt pat txt i
      · rw [if_pos hocc]
        exact ⟨some i, ⟨hocc, fun j hj => hpass j (by omega)⟩, rfl⟩
      have hlt : i + pat.length - 1 < txt.length := by omega
      have hget := getElem?_eq_getElem hlt
      have hd : txt.getD (i + pat.length - 1) 0 = txt[i + pat.length - 1] :=
        getD_eq_getElem _ _ hlt
      have hc := hpos (txt[i + pat.length - 1])
      have hnext : ((i + pat.length : Nat) : Int) + tab (txt[i + pat.length - 1]).toNat =
          (i + shiftOf tab (txt[i + pat.length - 1]) + pat.length : Nat) := by
        unfold shiftOf
        omega
      rw [if_neg hocc]
      rw [hd, hnext, if_neg (by omega)]
      apply ih (by omega)
      · omega
      · have := hpass.skip hs hocc hget
        rwa [Nat.add_right_comm] at this
    · rw [matchFrom, if_neg hin]
      exact ⟨none, fun i hi => hpass i (by have := hi.add_length_le hp; omega) hi, rfl⟩

/-- The search returned the smallest position of the pattern, or -1. -/
def Finds (txt pat : Bytes) (mem : Int → Int) : Prop :=
  ∃ r, IsFirst pat txt r ∧ bmhIsMatch txt pat (bmhGetJumpTable pat mem) = some (ofPos r)

theorem finds_of_lowBytes (hp : pat ≠ []) (hlow : LowBytes pat) (txt : Bytes) (mem : Int → Int) :
    Finds txt pat mem := by
  have hfirst : ∃ r, IsFirst pat txt r ∧
      matchFrom txt pat (bmhGetJumpTable pat mem) (txt.length + 2) (0 + pat.length) =
        some (ofPos r) :=
    matchFrom_isFirst hp (bmh_get_jump_table_shift hp hlow mem)
      (fun c => (bmhGetJumpTable_entry hp hlow mem c).pos)
      (by omega) (by omega) (fun _ hi => by omega)
  simpa [Finds, bmhIsMatch] using hfirst

/-! ## A byte above 127 -/

/-- The fill stays inside the table. -/
def IndexesInside (pat : Bytes) : Prop :=
  ∀ w ∈ jumpTableWrites pat, 0 ≤ w.1 ∧ w.1 < bmhJumpTableSize

theorem indexesInside_iff (pat : Bytes) : IndexesInside pat ↔ LowBytes pat := by
  constructor
  · intro h b hb
    obtain ⟨i, hi, hget⟩ := mem_dropLast_iff.mp hb
    by_contra hge
    have hmem : (b.toInt8.toInt, (pat.length : Int) - i - 1) ∈ jumpTableWrites pat := by
      apply mem_append_right
      refine mem_map.mpr ⟨i, mem_range.mpr hi, ?_⟩
      simp [hget]
    have hneg := toInt8_toInt_neg hge
    have := (h _ hmem).1
    omega
  · intro h w hw
    rcases mem_append.mp hw with hw | hw
    · obtain ⟨i, hi, rfl⟩ := mem_map.mp hw
      rw [mem_range] at hi
      omega
    · obtain ⟨i, hi, rfl⟩ := mem_map.mp hw
      rw [mem_range] at hi
      have hlow := h.getD hi
      have hlt : (pat.getD i 0).toNat < 256 := (pat.getD i 0).toNat_lt
      rw [toInt8_toInt_eq_toNat hlow]
      simp only [bmhJumpTableSize]
      omega

/-- A character that is neither zero nor `b`. -/
def otherThan (b : UInt8) : UInt8 := if b = 1 then 2 else 1

theorem otherThan_ne (b : UInt8) : otherThan b ≠ b := by
  unfold otherThan
  split
  · rename_i h
    simp [h]
  · exact Ne.symm ‹_›

/-- The pattern, so far behind that its byte `i` ends the first window. -/
def lostText (pat : Bytes) (i : Nat) : Bytes :=
  List.replicate (pat.length - 1 - i) (otherThan (pat.getD 0 0)) ++ pat

theorem lostText_not_occursAt_zero (hi : i < pat.length - 1) :
    ¬OccursAt pat (lostText pat i) 0 := by
  intro h
  have hlt : 0 < pat.length := by omega
  have h0 := occursAt_iff.mp h 0 hlt
  have hrep : (lostText pat i)[0]? = some (otherThan (pat.getD 0 0)) := by
    unfold lostText
    rw [getElem?_append_left (by simp only [length_replicate]; omega),
      getElem?_replicate, if_pos (by omega)]
  rw [hrep, getD_eq_getElem _ _ hlt] at h0
  exact otherThan_ne _ (Option.some.inj h0)

/-- The first window ends with the byte, whose entry is the whole length. -/
theorem bmhIsMatch_lostText (hi : i < pat.length - 1)
    (hget : pat[i]? = some c) (hc : ¬c < 128) (mem : Int → Int) :
    bmhIsMatch (lostText pat i) pat (bmhGetJumpTable pat mem) = some (-1) := by
  classical
  have hlen : (lostText pat i).length = pat.length - 1 - i + pat.length := by
    simp [lostText]
  have hchar : (lostText pat i).getD (pat.length - 1) 0 = c := by
    unfold lostText
    rw [getD_eq_getElem?_getD, getElem?_append_right
      (by simp only [length_replicate]; omega), length_replicate]
    have hidx : pat.length - 1 - (pat.length - 1 - i) = i := by omega
    rw [hidx, hget, Option.getD_some]
  have hback := compareBack_whole (i := 0) (lostText pat i) pat
  rw [if_neg (lostText_not_occursAt_zero hi), Nat.zero_add] at hback
  unfold bmhIsMatch
  rw [matchFrom, if_pos (by omega), hback]
  rw [hchar, bmhGetJumpTable_of_ge pat mem hc, if_neg (by omega)]
  -- the second window is past the end
  rw [matchFrom, if_neg (by omega)]

theorem not_finds_lostText (hi : i < pat.length - 1)
    (hget : pat[i]? = some c) (hc : ¬c < 128) (mem : Int → Int) :
    ¬Finds (lostText pat i) pat mem := by
  rintro ⟨r, hr, he⟩
  rw [bmhIsMatch_lostText hi hget hc] at he
  have hpos : ofPos r = -1 := (Option.some.inj he).symm
  cases r with
  | none => exact hr (pat.length - 1 - i) (by rw [OccursAt, lostText, drop_left' length_replicate])
  | some j =>
    simp only [ofPos] at hpos
    omega

/-- For every key and text: the fill stays inside the table and the search
finds the first place of the key, exactly when no byte of the key but the last
is above 127. For any other key there is a text in which it is not found. -/
theorem key_search_exact (pat : CString) (hp : pat.bytes ≠ []) (mem : Int → Int) :
    (∀ txt : CString, IndexesInside pat.bytes ∧ Finds txt.bytes pat.bytes mem ↔
      LowBytes pat.bytes) ∧
    ((∀ txt : CString, Finds txt.bytes pat.bytes mem) ↔ LowBytes pat.bytes) := by
  refine ⟨fun txt => ⟨fun h => (indexesInside_iff _).mp h.1, fun h =>
    ⟨(indexesInside_iff _).mpr h, finds_of_lowBytes hp h _ mem⟩⟩, ?_⟩
  constructor
  · intro h b hb
    obtain ⟨i, hi, hget⟩ := mem_dropLast_iff.mp hb
    by_contra hc
    have hnul : 0 ∉ lostText pat.bytes i := by
      intro hmem
      rcases mem_append.mp hmem with hmem | hmem
      · exact absurd (eq_of_mem_replicate hmem).symm (by unfold otherThan; split <;> decide)
      · exact pat.noNul hmem
    exact not_finds_lostText hi hget hc mem (h ⟨_, hnul⟩)
  · intro h txt
    exact finds_of_lowBytes hp h _ mem

theorem key_search_exact_err :
    (∀ txt : CString, IndexesInside [101, 114, 114] ∧ Finds txt.bytes [101, 114, 114] (fun _ => 0) ↔
      LowBytes [101, 114, 114]) ∧
    ((∀ txt : CString, Finds txt.bytes [101, 114, 114] fun _ => 0) ↔ LowBytes [101, 114, 114]) :=
  key_search_exact ⟨[101, 114, 114], by decide⟩ (by decide) _

/-- The key E4 BD A0 in a text that starts with one other character: the first
write is at index -28, and the search does not find the key at position 1. -/
theorem key_search_lost : (jumpTableWrites [0xE4, 0xBD, 0xA0])[256]? = some (-28, 2) ∧
    OccursAt [0xE4, 0xBD, 0xA0] [120, 0xE4, 0xBD, 0xA0] 1 ∧
    bmhIsMatch [120, 0xE4, 0xBD, 0xA0] [0xE4, 0xBD, 0xA0]
      (bmhGetJumpTable [0xE4, 0xBD, 0xA0] fun _ => 0) = some (-1) := by
  refine ⟨by decide, ?_, by decide +kernel⟩
  exact prefix_rfl

end DesPwd.L1.OiBmh
