import DesPwd.L2Machine.Vmem
import Mathlib.Data.List.Nodup
import Mathlib.Data.List.Count
import Mathlib.Data.List.Flatten

/-!
# The representation invariant of a pool segment

`SegInv s fl es ms`: the node indexes 1 to `wNodeCount - 1` of the segment
`s` are exactly those of its free list `fl`, of the chains of the entries
`es` and of the marked nodes `ms`, each once; `wNodeUsed` counts the last two
and the head. An entry with data is a saved value whose chain holds these
bytes; an entry without is the rest of a chain whose free is under way.

* `SegInv.reclaim`, `SegInv.mark`: the two ways a node changes its list.
* `SegInv.save`: a save either leaves the entries alone or adds its own.
* `SegInv.freeLoop`: a free returns, and removes exactly its entry.
* `SegInv.checkLoop`, `SegInv.scanLoop`: the reclaim loops keep all entries.
* `SegInv.getLoop`: reading an entry returns its bytes.
-/
namespace DesPwd.L2.Vmem

open Links List Segment
open Function (update update_of_ne)

/-! ## Field access after an update -/

namespace Segment

variable {s : Segment} {i j v : Nat}

theorem dataLen_of_ne (h : i ≠ 0) : s.dataLen i = (s.node i).bDataLen := by
  simp [dataLen, h]

theorem setNext_of_ne (h : i ≠ 0) : s.setNext i v =
    { s with node := update s.node i { s.node i with wNextNodeIndex := v } } := by
  simp [setNext, h]

theorem setDataLen_of_ne (h : i ≠ 0) : s.setDataLen i v =
    { s with node := update s.node i { s.node i with bDataLen := v % 256 } } := by
  simp [setDataLen, h]

theorem next_setNext (h : i ≠ 0) : (s.setNext i v).next = update s.next i v := by
  funext j
  rw [setNext_of_ne h]
  by_cases hj : j = i
  · subst hj; simp [next, h]
  · simp [next, update_of_ne hj]

variable {s' : Segment} {f : Nat} {d : List UInt8} {c : List Nat}

theorem next_congr (hN : s'.wNodeCount = s.wNodeCount) (h : s'.node i = s.node i) :
    s'.next i = s.next i := by
  simp [next, hN, h]

/-- The bytes of the nodes `c`. -/
def chainData (s : Segment) (c : List Nat) : List UInt8 :=
  c.flatMap fun i => (s.node i).sDataBuf.take (s.node i).bDataLen

/-- Fill node `i` with `d`, its successor set to `v`, and move the free list
to `f`: what the copy loop does to each node it takes. -/
def put (s : Segment) (i v f : Nat) (d : List UInt8) : Segment :=
  { s with
    wFreeNodeIndex := f
    node := update s.node i ⟨v, d.length % 256, d ++ (s.node i).sDataBuf.drop d.length⟩ }

theorem put_node_of_ne (h : j ≠ i) : (s.put i v f d).node j = s.node j := update_of_ne h _ _

theorem freeNode_false (h : i ≠ 0) :
    s.freeNode false i = s.put i (s.wNodeCount + 1) s.wFreeNodeIndex [] := by
  simp [freeNode, setNext_of_ne h, setDataLen_of_ne h, put]

theorem put_next_of_ne (h : j ≠ i) :
    (s.put i v f d).next j = s.next j := next_congr rfl (put_node_of_ne h)

theorem put_next (h : i ≠ 0) : (s.put i v f d).next i = v := by
  simp [next, put, h]

/-- The nodes `c` hold the bytes `d`, and none claims more than it has. -/
structure Holds (s : Segment) (c : List Nat) (d : List UInt8) : Prop where
  bytes : s.chainData c = d
  fits : ∀ i ∈ c, (s.node i).bDataLen ≤ (s.node i).sDataBuf.length

theorem Holds.congr (h : s.Holds c d) (hn : ∀ i ∈ c, s'.node i = s.node i) : s'.Holds c d where
  bytes := by
    rw [← h.bytes]
    exact flatMap_congr fun i hi => by rw [hn i hi]
  fits i hi := by rw [hn i hi]; exact h.fits i hi

theorem Holds.put_cons {d' : List UInt8}
    (h : s'.Holds c d') (hd : d.length < 256) (hn : s'.node i = (s.put i v f d).node i) :
    s'.Holds (i :: c) (d ++ d') where
  bytes := by
    have hi : (s'.node i).sDataBuf.take (s'.node i).bDataLen = d := by
      rw [hn]
      simp [put, Nat.mod_eq_of_lt hd]
    rw [chainData, flatMap_cons, hi]
    exact congrArg (d ++ ·) h.bytes
  fits j hj := by
    rcases mem_cons.mp hj with rfl | hj'
    · rw [hn]
      simp [put, Nat.mod_eq_of_lt hd]
    · exact h.fits j hj'

theorem Holds.uncons (h : s.Holds (i :: c) d) :
    ∃ d', s.Holds c d' ∧ (s.node i).sDataBuf.take (s.node i).bDataLen ++ d' = d ∧
      (s.node i).bDataLen + d'.length = d.length := by
  have hlen := congrArg List.length h.bytes
  rw [chainData, flatMap_cons, length_append, length_take,
    min_eq_left (h.fits i mem_cons_self)] at hlen
  exact ⟨_, ⟨rfl, fun j hj => h.fits j (mem_cons_of_mem _ hj)⟩, h.bytes, hlen⟩

/-- None of the nodes `c` is empty. -/
def Filled (s : Segment) (c : List Nat) : Prop := ∀ i ∈ c, (s.node i).bDataLen ≠ 0

theorem Filled.congr (h : s.Filled c) (hn : ∀ i ∈ c, (s'.node i).bDataLen = (s.node i).bDataLen) :
    s'.Filled c := by
  intro i hi
  rw [hn i hi]
  exact h i hi

theorem Filled.put_cons (h : s'.Filled c) (hd : d.length < 256) (h0 : d.length ≠ 0)
    (hn : s'.node i = (s.put i v f d).node i) : s'.Filled (i :: c) := by
  intro j hj
  rcases mem_cons.mp hj with rfl | hj'
  · rw [hn]
    simpa [put, Nat.mod_eq_of_lt hd] using h0
  · exact h j hj'

end Segment

/-! ## The invariant -/

/-- A chain of a segment: the index it starts at, its nodes, and the bytes it
holds unless it is being freed. -/
structure Entry where
  head : Nat
  chain : List Nat
  data : Option (List UInt8)
  deriving DecidableEq

/-- The entry's chain is in the segment and holds the entry's bytes. -/
structure EntryOk (s : Segment) (e : Entry) : Prop where
  linked : Linked s.next s.wNodeCount e.head e.chain
  ne : e.chain ≠ []
  data : ∀ d, e.data = some d → s.Holds e.chain d

theorem EntryOk.congr {s s' : Segment} {e : Entry} (h : EntryOk s e)
    (hN : s'.wNodeCount = s.wNodeCount) (hn : ∀ i ∈ e.chain, s'.node i = s.node i) :
    EntryOk s' e where
  linked := by
    rw [hN]
    exact h.linked.congr fun i hi => next_congr hN (hn i hi)
  ne := h.ne
  data d hd := (h.data d hd).congr hn

/-- What is left of a chain when its first node is gone: the nodes `c` from
`i` on, and no entry when there are none. -/
def Entry.rest (i : Nat) : List Nat → List Entry → List Entry
  | [], es => es
  | k :: c, es => ⟨i, k :: c, none⟩ :: es

theorem Entry.mem_rest {i : Nat} {c : List Nat} {es : List Entry} {e : Entry}
    (h : e ∈ Entry.rest i c es) : (c ≠ [] ∧ e = ⟨i, c, none⟩) ∨ e ∈ es := by
  cases c with
  | nil => exact .inr h
  | cons k c =>
    rcases mem_cons.mp h with rfl | h'
    · exact .inl ⟨cons_ne_nil _ _, rfl⟩
    · exact .inr h'

theorem Entry.flatMap_rest (i : Nat) (c : List Nat) (es : List Entry) :
    (Entry.rest i c es).flatMap Entry.chain = c ++ es.flatMap Entry.chain := by
  cases c <;> rfl

structure SegInv (s : Segment) (fl : List Nat) (es : List Entry) (ms : List Nat) : Prop where
  pos : 1 < s.wNodeCount
  size : s.wNodeCount + 1 < 65536
  free : Linked s.next s.wNodeCount s.wFreeNodeIndex fl
  entry : ∀ e ∈ es, EntryOk s e
  marked : ∀ i ∈ ms, s.next i = s.wNodeCount + 1
  perm : (fl ++ (es.flatMap Entry.chain ++ ms)).Perm (List.range' 1 (s.wNodeCount - 1))
  used : s.wNodeUsed = 1 + (es.flatMap Entry.chain).length + ms.length

namespace SegInv

variable {s : Segment} {fl ms : List Nat} {es : List Entry} {i : Nat}

theorem nodup (h : SegInv s fl es ms) : (fl ++ (es.flatMap Entry.chain ++ ms)).Nodup :=
  h.perm.nodup_iff.mpr nodup_range'

theorem bounds (h : SegInv s fl es ms) (hi : i ∈ fl ++ (es.flatMap Entry.chain ++ ms)) :
    i ≠ 0 ∧ i < s.wNodeCount := by
  have := h.perm.mem_iff.mp hi
  rw [mem_range'_1] at this
  omega

theorem mem_chain {e : Entry} (he : e ∈ es) (hi : i ∈ e.chain) :
    i ∈ es.flatMap Entry.chain := mem_flatMap.mpr ⟨e, he, hi⟩

theorem length (h : SegInv s fl es ms) : fl.length + s.wNodeUsed = s.wNodeCount := by
  have h1 := h.perm.length_eq
  have h2 := h.used
  have h3 := h.pos
  simp only [length_append, length_range'] at h1
  omega

variable {s' : Segment} {c : List Nat} {d : Option (List UInt8)} {len : Nat} {pdata : List UInt8}

section

variable (h : SegInv s fl es ms)
include h

theorem of_eq (hN : s'.wNodeCount = s.wNodeCount)
    (hU : s'.wNodeUsed = s.wNodeUsed) (hF : s'.wFreeNodeIndex = s.wFreeNodeIndex)
    (hn : s'.node = s.node) : SegInv s' fl es ms := by
  have hx : s'.next = s.next := funext fun i => next_congr hN (by rw [hn])
  refine ⟨by rw [hN]; exact h.pos, by rw [hN]; exact h.size, by rw [hx, hN, hF]; exact h.free,
    fun e he => (h.entry e he).congr hN (fun i _ => by rw [hn]), ?_, by rw [hN]; exact h.perm,
    by rw [hU]; exact h.used⟩
  rw [hx, hN]; exact h.marked

theorem unlock : SegInv s.unlock fl es ms := h.of_eq rfl rfl rfl rfl

theorem tryLock {now : Nat} (hl : s.tryLock now = some s') : SegInv s' fl es ms := by
  unfold Segment.tryLock at hl
  split at hl
  · cases hl; exact h.of_eq rfl rfl rfl rfl
  · cases hl

theorem perm_es {es' : List Entry} (hp : es.Perm es') : SegInv s fl es' ms := by
  have hf := hp.flatMap_right Entry.chain
  refine ⟨h.pos, h.size, h.free, fun e he => h.entry e (hp.mem_iff.mpr he), h.marked, ?_, ?_⟩
  · exact ((hf.append_right ms).append_left fl).symm.trans h.perm
  · rw [h.used, hf.length_eq]

theorem perm_mk {ms' : List Nat} (hp : ms.Perm ms') : SegInv s fl es ms' := by
  refine ⟨h.pos, h.size, h.free, h.entry, fun i hi => h.marked i (hp.mem_iff.mpr hi), ?_, ?_⟩
  · exact ((hp.append_left _).append_left fl).symm.trans h.perm
  · rw [h.used, hp.length_eq]

end

theorem forget (h : SegInv s fl (⟨i, c, d⟩ :: es) ms) : SegInv s fl (⟨i, c, none⟩ :: es) ms := by
  refine ⟨h.pos, h.size, h.free, fun e he => ?_, h.marked, h.perm, h.used⟩
  rcases mem_cons.mp he with rfl | he'
  · have hok := h.entry _ mem_cons_self
    exact ⟨hok.linked, hok.ne, by simp⟩
  · exact h.entry e (mem_cons_of_mem _ he')

theorem next_eq_mark_iff (h : SegInv s fl es ms) (h1 : i ≠ 0) (h2 : i < s.wNodeCount) :
    s.next i = s.wNodeCount + 1 ↔ i ∈ ms := by
  refine ⟨fun hn => ?_, h.marked i⟩
  have hi : i ∈ fl ++ (es.flatMap Entry.chain ++ ms) :=
    h.perm.mem_iff.mpr (mem_range'_1.mpr (by omega))
  -- a node of a list points to a node of the segment or at `wNodeCount`
  have hlist : ∀ {k} {l}, Linked s.next s.wNodeCount k l →
      (∀ a ∈ l, a < s.wNodeCount) → i ∉ l := by
    intro k l hl hb hm
    rcases hl.next_mem i hm with h3 | h3
    · have := hb _ h3; omega
    · omega
  rcases mem_append.mp hi with hf | hi
  · exact absurd hf (hlist h.free fun a ha => (h.bounds (mem_append_left _ ha)).2)
  rcases mem_append.mp hi with hc | hm
  · obtain ⟨e, he, hc⟩ := mem_flatMap.mp hc
    refine absurd hc (hlist (h.entry e he).linked fun a ha => (h.bounds ?_).2)
    exact mem_append_right _ (mem_append_left _ (mem_chain he ha))
  · exact hm

/-! ## Moving a node -/

/-- **Reclaim.** A marked node goes to the front of the free list. -/
theorem reclaim (h : SegInv s fl es (i :: ms)) : SegInv (s.reclaim i) (i :: fl) es ms := by
  have hp : (i :: (fl ++ (es.flatMap Entry.chain ++ ms))).Perm
      (fl ++ (es.flatMap Entry.chain ++ i :: ms)) := by
    rw [perm_iff_count]; simp only [count_append, count_cons]; omega
  have hnd := (nodup_cons.mp (hp.nodup_iff.mpr h.nodup)).1
  simp only [mem_append, not_or] at hnd
  obtain ⟨hfl, hch, hmk⟩ := hnd
  have hb := h.bounds (i := i) (by simp)
  have hsz := h.size
  have hused := h.used
  simp only [length_cons] at hused
  have hnext : (s.reclaim i).next = update s.next i s.wFreeNodeIndex := by
    rw [← next_setNext hb.1]
    exact funext fun j => Segment.next_congr (by simp [Segment.reclaim]) (by simp [Segment.reclaim])
  have hN : (s.reclaim i).wNodeCount = s.wNodeCount := by
    simp [Segment.reclaim, Segment.setNext_of_ne hb.1]
  have hnode : ∀ j, j ≠ i → (s.reclaim i).node j = s.node j := by
    intro j hj
    simp [Segment.reclaim, Segment.setNext_of_ne hb.1, update_of_ne hj]
  refine ⟨by rw [hN]; exact h.pos, by rw [hN]; exact hsz, ?_, fun e he => ?_, fun j hj => ?_, ?_, ?_⟩
  · rw [hnext, hN]; exact h.free.push hfl
  · refine (h.entry e he).congr hN fun j hj => hnode j ?_
    rintro rfl; exact hch (mem_chain he hj)
  · have hji : j ≠ i := by rintro rfl; exact hmk hj
    rw [hnext, hN, update_of_ne hji]
    exact h.marked j (mem_cons_of_mem _ hj)
  · rw [hN]; exact hp.trans h.perm
  · show dec16 s.wNodeUsed = _
    rw [dec16, if_neg (by omega)]
    omega

/-- **Mark.** Freeing the first node of a chain without the flag. -/
theorem mark (h : SegInv s fl (⟨i, i :: c, d⟩ :: es) ms) :
    SegInv (s.freeNode false i) fl (Entry.rest (s.next i) c es) (i :: ms) := by
  have hp : (i :: (fl ++ ((c ++ es.flatMap Entry.chain) ++ ms))).Perm
      (fl ++ (((⟨i, i :: c, d⟩ : Entry) :: es).flatMap Entry.chain ++ ms)) := by
    rw [perm_iff_count]; simp only [flatMap_cons, count_append, count_cons]; omega
  have hnd := (nodup_cons.mp (hp.nodup_iff.mpr h.nodup)).1
  simp only [mem_append, not_or] at hnd
  obtain ⟨hfl, ⟨hc, hes⟩, hmk⟩ := hnd
  have hb := h.bounds (i := i) (by simp)
  have hlink := (h.entry _ mem_cons_self).linked
  rw [freeNode_false hb.1]
  refine ⟨h.pos, h.size, ?_, fun e he => ?_, fun j hj => ?_, ?_, ?_⟩
  · exact h.free.congr fun j hj => put_next_of_ne (by rintro rfl; exact hfl hj)
  · rcases Entry.mem_rest he with ⟨hne, rfl⟩ | he'
    · refine ⟨?_, hne, by simp⟩
      exact hlink.2.congr fun j hj => put_next_of_ne (by rintro rfl; exact hc hj)
    · refine (h.entry e (mem_cons_of_mem _ he')).congr rfl fun j hj =>
        put_node_of_ne ?_
      rintro rfl; exact hes (mem_chain he' hj)
  · rcases mem_cons.mp hj with rfl | hj'
    · exact put_next hb.1
    · rw [put_next_of_ne (by rintro rfl; exact hmk hj')]
      exact h.marked j hj'
  · refine List.Perm.trans ?_ (hp.trans h.perm)
    rw [perm_iff_count]; simp only [Entry.flatMap_rest, count_append, count_cons]; omega
  · show s.wNodeUsed = _
    rw [h.used]
    simp only [Entry.flatMap_rest, flatMap_cons, length_append, length_cons]; omega

/-! ## Free -/

/-- Freeing a node with the flag is marking it and reclaiming it at once. -/
theorem freeNode_true (hi : i ≠ 0) : s.freeNode true i = (s.freeNode false i).reclaim i := by
  simp [Segment.freeNode, Segment.reclaim, Segment.setNext_of_ne hi]

theorem freeNode (h : SegInv s fl (⟨i, i :: c, d⟩ :: es) ms) :
    SegInv (s.freeNode true i) (i :: fl) (Entry.rest (s.next i) c es) ms := by
  rw [freeNode_true (h.bounds (by simp)).1]
  exact h.mark.reclaim

/-- One node of a chain, freed in either mode; with the flag no mark is left. -/
theorem freeNode_any (got : Bool) (h : SegInv s fl (⟨i, i :: c, d⟩ :: es) ms) :
    ∃ fl' ms', SegInv (s.freeNode got i) fl' (Entry.rest (s.next i) c es) ms' ∧
      (got = true → ms' = ms) := by
  cases got with
  | true => exact ⟨_, _, h.freeNode, fun _ => rfl⟩
  | false => exact ⟨_, _, h.mark, nofun⟩

theorem freeNode_wNodeCount (got : Bool) (hi : i ≠ 0) :
    (s.freeNode got i).wNodeCount = s.wNodeCount := by
  cases got <;>
    simp [Segment.freeNode, Segment.reclaim, Segment.setNext_of_ne hi, Segment.setDataLen_of_ne hi]

/-- **Free.** The loop returns, all entries but the freed one stay, and with the
flag so do the marks. -/
theorem freeLoop (got : Bool) :
    ∀ {c} {i fuel} {s} {fl ms} {d},
      SegInv s fl (⟨i, i :: c, d⟩ :: es) ms → c.length < fuel →
      ∃ s' fl' ms', s.freeLoop got fuel i = some s' ∧ SegInv s' fl' es ms' ∧ (got = true → ms' = ms)
  | c, i, 0, _, _, _, _, _, hf => by omega
  | c, i, fuel + 1, s, fl, ms, d, h, hf => by
    have hb := h.bounds (i := i) (by simp)
    obtain ⟨fl', ms', h', hms⟩ := h.freeNode_any got
    have hused : (s.freeNode got i).wNodeUsed ≠ 0 := by rw [h'.used]; omega
    have hN := freeNode_wNodeCount (s := s) got hb.1
    have hlink := (h.entry _ mem_cons_self).linked.2
    simp only [Segment.freeLoop, hN, beq_iff_eq, hused, Bool.and_eq_true, and_false]
    cases c with
    | nil =>
      have hstop : s.next i = s.wNodeCount := hlink
      rw [hstop, if_neg (lt_irrefl _)]
      exact ⟨_, _, _, rfl, h', hms⟩
    | cons k c =>
      have hk : s.next i = k := hlink.1
      have hkb := h.bounds (i := k) (by simp)
      rw [hk] at h' ⊢
      rw [if_pos hkb.2]
      obtain ⟨s', fl2, ms2, hr, h2, hms2⟩ := freeLoop got h' (by simpa using hf)
      exact ⟨s', fl2, ms2, hr, h2, fun hg => (hms2 hg).trans (hms hg)⟩

/-! ## Reclaim loops -/

section

variable (h : SegInv s fl es ms)
include h

/-- Reclaiming a node that holds the mark keeps every entry and gives the
free list one more node. -/
theorem reclaim_of_next (h1 : i ≠ 0) (h2 : i < s.wNodeCount)
    (hn : s.next i = s.wNodeCount + 1) : SegInv (s.reclaim i) (i :: fl) es (ms.erase i) :=
  (h.perm_mk (perm_cons_erase ((h.next_eq_mark_iff h1 h2).mp hn))).reclaim

/-- The entries `es` are in `s`, and at least `n` nodes are free. -/
def Kept (s : Segment) (n : Nat) (es : List Entry) : Prop :=
  ∃ fl ms, SegInv s fl es ms ∧ n ≤ fl.length

theorem kept : Kept s fl.length es := ⟨fl, ms, h, le_refl _⟩

theorem scanNode (hi : i < s.wNodeCount) : Kept (s.scanNode i) fl.length es := by
  unfold Segment.scanNode
  split
  · rename_i hn
    have h0 : i ≠ 0 := by
      rintro rfl
      simp [Segment.next] at hn
    exact ⟨_, _, h.reclaim_of_next h0 hi hn, by simp⟩
  · exact h.kept

/-- A round of `SCAN_FREE_NODE` is one `scanNode` and a new scan position. -/
theorem scanFreeStep : Kept s.scanFreeStep fl.length es := by
  have hpos := h.pos
  have hk : (if s.wNodeCount ≤ s.wScanFreeIndex then 1 else s.wScanFreeIndex) < s.wNodeCount := by
    split <;> omega
  obtain ⟨fl', ms', h', hl⟩ := h.scanNode hk
  exact ⟨fl', ms', h'.of_eq rfl rfl rfl rfl, hl⟩

end

theorem scanFreeRounds : ∀ iScan {s} {fl ms}, SegInv s fl es ms →
      Kept (s.scanFreeRounds iScan) fl.length es
  | 0, _, _, _, h => h.kept
  | iScan + 1, _, _, _, h => by
    obtain ⟨fl1, ms1, h1, hl1⟩ := h.scanFreeStep
    obtain ⟨fl2, ms2, h2, hl2⟩ := scanFreeRounds iScan h1
    exact ⟨fl2, ms2, h2, le_trans hl1 hl2⟩

theorem scanFreeNode (h : SegInv s fl es ms) : Kept s.scanFreeNode fl.length es :=
  h.scanFreeRounds 50

/-- The node loop of `MA_SCAN_FREE_NODE` returns and keeps every entry. -/
theorem scanLoop : ∀ {s} {fl ms} cnt i, SegInv s fl es ms →
      ∃ s' k, s.scanLoop cnt i = some (s', k) ∧ Kept s' fl.length es
  | s, _, _, 0, i, h => ⟨s, i, rfl, h.kept⟩
  | s, fl, ms, cnt + 1, i, h => by
    unfold Segment.scanLoop
    split
    · rename_i hi
      obtain ⟨fl1, ms1, h1, hl1⟩ := h.scanNode hi
      have hused : (s.scanNode i).wNodeUsed ≠ 0 := by rw [h1.used]; omega
      obtain ⟨s', k, hr, fl2, ms2, h2, hl2⟩ := scanLoop cnt (i + 1) h1
      simp only [hused, and_false, hr]
      exact ⟨s', k, rfl, fl2, ms2, h2, le_trans hl1 hl2⟩
    · exact ⟨s, i, rfl, h.kept⟩

theorem checkNode {b : Bool} (h : SegInv s fl es ms) (h0 : i ≠ 0)
    (hi : i < s.wNodeCount) (hc : s.checkNode i = some (s', b)) : Kept s' fl.length es := by
  unfold Segment.checkNode at hc
  split at hc
  · rename_i hn
    split at hc
    · cases hc
    · cases hc
      exact ⟨_, _, (h.reclaim_of_next h0 hi hn.2).unlock, by simp⟩
  · cases hc; exact h.kept

/-- The node loop of `CHECK_VMEM_FREE_NODE` returns and keeps every entry. -/
theorem checkLoop :
    ∀ {s} {fl ms} fuel i cnt, SegInv s fl es ms → i ≠ 0 →
      ∃ s' k, s.checkLoop fuel i cnt = some (s', k) ∧ Kept s' fl.length es
  | s, _, _, 0, _, cnt, h, _ => ⟨s, cnt, rfl, h.kept⟩
  | s, fl, ms, fuel + 1, i, cnt, h, h0 => by
    unfold Segment.checkLoop
    split
    · rename_i hi
      split
      · exact ⟨s, cnt, rfl, h.kept⟩
      · rename_i s1 hc
        obtain ⟨fl1, ms1, h1, hl1⟩ := h.checkNode h0 hi hc
        have hused : s1.wNodeUsed ≠ 0 := by rw [h1.used]; omega
        obtain ⟨s', k, hr, fl2, ms2, h2, hl2⟩ := checkLoop fuel (i + 1) (cnt + 1) h1 (by omega)
        rw [if_neg hused]
        exact ⟨s', k, hr, fl2, ms2, h2, le_trans hl1 hl2⟩
      · rename_i s1 hc
        obtain ⟨fl1, ms1, h1, hl1⟩ := h.checkNode h0 hi hc
        obtain ⟨s', k, hr, fl2, ms2, h2, hl2⟩ := checkLoop fuel (i + 1) cnt h1 (by omega)
        exact ⟨s', k, hr, fl2, ms2, h2, le_trans hl1 hl2⟩
    · exact ⟨s, cnt, rfl, h.kept⟩

/-! ## Save -/

/-- The effect of the copy loop: it takes the nodes `l` behind the node `a`
it holds, links them into a chain with the bytes from `rd` on, and touches
nothing else. -/
structure Copied (pdata : List UInt8) (rd a : Nat) (l rest : List Nat) (s s' : Segment) :
    Prop where
  count : s'.wNodeCount = s.wNodeCount
  used : s'.wNodeUsed = s.wNodeUsed
  node : ∀ j, j ∉ a :: l → s'.node j = s.node j
  free : Linked s'.next s.wNodeCount s'.wFreeNodeIndex rest
  chain : Linked s'.next s.wNodeCount a (a :: l)
  data : s'.Holds (a :: l) (pdata.drop rd)

theorem saveLoop_last {rd a : Nat} (ha : a ≠ 0) :
    s.saveLoop len pdata 1 rd a = s.put a s.wNodeCount s.wFreeNodeIndex (pdata.drop rd) := by
  simp [saveLoop, setNext_of_ne ha, setDataLen_of_ne ha, memcpy, put]

theorem saveLoop_step {rd a k : Nat} (ha : a ≠ 0)
    (hab : a ≠ s.wFreeNodeIndex) (hl : rd + len ≤ pdata.length) :
    s.saveLoop len pdata (k + 2) rd a =
      (s.put a s.wFreeNodeIndex (s.next s.wFreeNodeIndex) ((pdata.drop rd).take len)).saveLoop
        len pdata (k + 1) (rd + len) s.wFreeNodeIndex := by
  have hlen : ((pdata.drop rd).take len).length = len := by
    rw [length_take, length_drop]; omega
  have hnext : ∀ nd, ({ s with node := update s.node a nd } : Segment).next
      s.wFreeNodeIndex = s.next s.wFreeNodeIndex := fun nd =>
    next_congr rfl (update_of_ne hab.symm _ _)
  simp [saveLoop, setDataLen_of_ne ha, memcpy, getFreeNode,
    setNext_of_ne ha, Function.update_self, Function.update_idem, hlen, hnext, put]

theorem saveLoop (h0 : len < 256) (hlen : len ≠ 0) :
    ∀ {l} {rd a} {rest} {s},
      Linked s.next s.wNodeCount s.wFreeNodeIndex (l ++ rest) → (a :: (l ++ rest)).Nodup →
      (∀ i ∈ a :: l, i ≠ 0) → rd + l.length * len < pdata.length →
      pdata.length ≤ rd + (l.length + 1) * len →
      Copied pdata rd a l rest s (s.saveLoop len pdata (l.length + 1) rd a) ∧
        (s.saveLoop len pdata (l.length + 1) rd a).Filled (a :: l)
  | [], rd, a, rest, s, hf, hnd, hne, hlo, hhi => by
    have ha : a ≠ 0 := hne a mem_cons_self
    have hlast : s.saveLoop len pdata 1 rd a = s.put a s.wNodeCount s.wFreeNodeIndex (pdata.drop rd) :=
      saveLoop_last ha
    rw [length_nil, zero_add] at hhi
    rw [length_nil, hlast]
    have hd : (pdata.drop rd).length < 256 := by rw [length_drop]; omega
    refine ⟨⟨rfl, rfl, fun j hj => ?_, ?_, ⟨rfl, ?_⟩, ?_⟩, ?_⟩
    · exact put_node_of_ne (by simpa using hj)
    · refine hf.congr fun j hj => put_next_of_ne ?_
      rintro rfl; exact (nodup_cons.mp hnd).1 hj
    · rw [put_next ha]; rfl
    · have hnil : (s.put a s.wNodeCount s.wFreeNodeIndex (pdata.drop rd)).Holds [] [] :=
        ⟨rfl, by simp⟩
      have h1 := hnil.put_cons hd rfl
      rwa [append_nil] at h1
    · have hnil : (s.put a s.wNodeCount s.wFreeNodeIndex (pdata.drop rd)).Filled [] := by
        intro i hi; cases hi
      refine hnil.put_cons hd ?_ rfl
      rw [length_drop]; omega
  | b :: l, rd, a, rest, s, hf, hnd, hne, hlo, hhi => by
    have ha : a ≠ 0 := hne a mem_cons_self
    obtain ⟨hb, hf⟩ := hf
    have ⟨hna, hnd'⟩ := nodup_cons.mp hnd
    have hab : a ≠ b := by rintro rfl; exact hna mem_cons_self
    rw [length_cons] at hlo hhi ⊢
    rw [Nat.add_mul] at hlo hhi
    rw [saveLoop_step ha (by rw [hb]; exact hab) (by omega), hb]
    have hd : ((pdata.drop rd).take len).length = len := by
      rw [length_take, length_drop]; omega
    -- the free list without `b`, seen in the segment where `a` is filled
    have hf' : Linked (s.put a b (s.next b) ((pdata.drop rd).take len)).next
        s.wNodeCount (s.next b) (l ++ rest) := by
      refine hf.congr fun j hj => put_next_of_ne ?_
      rintro rfl; exact hna (mem_cons_of_mem _ hj)
    have hlo' : rd + len + l.length * len < pdata.length := by omega
    obtain ⟨ih, ihf⟩ := saveLoop h0 hlen hf' hnd'
      (fun i hi => hne i (mem_cons_of_mem _ hi)) hlo' (by omega)
    have hal : a ∉ b :: l := fun h => hna (mem_append_left rest h)
    refine ⟨⟨ih.count, ih.used, fun j hj => ?_, ih.free, ⟨rfl, ?_⟩, ?_⟩, ?_⟩
    · rw [mem_cons, not_or] at hj
      rw [ih.node j hj.2, put_node_of_ne hj.1]
    · rw [next_congr ih.count (ih.node a hal), put_next ha]
      exact ih.chain
    · have h1 := ih.data.put_cons (by rw [hd]; exact h0) (ih.node a hal)
      rwa [← drop_drop, take_append_drop] at h1
    · exact ihf.put_cons (by rw [hd]; exact h0) (by rw [hd]; exact hlen) (ih.node a hal)

/-- The nodes a value needs: enough, none too many, and no overflow. -/
theorem needCount_spec (c : NodeLen) {n : Nat} (h0 : n ≠ 0) (h1 : n ≤ maxDataLen) :
    ∃ k, needCount c.len n = k + 1 ∧ k * c.len < n ∧ n ≤ (k + 1) * c.len := by
  refine ⟨needCount c.len n - 1, ?_⟩
  unfold maxDataLen at h1
  by_cases hz : n % c.len = 0 <;> cases c <;>
    simp only [needCount, NodeLen.len] at hz ⊢ <;>
    simp only [hz, if_true, if_false] <;> omega

/-- The copy into a segment with room: the chain taken from the free list
holds the data in nodes that are not empty, and no other node changes. -/
theorem saveChain {c : NodeLen} (h : SegInv s fl es ms)
    (hn : pdata.length ≠ 0) (hmax : pdata.length ≤ maxDataLen)
    (hroom : needCount c.len pdata.length ≤ fl.length)
    (hs : s' = (s.getFreeNode.addUsed (needCount c.len pdata.length)).saveLoop c.len pdata
      (needCount c.len pdata.length) 0 s.wFreeNodeIndex) :
    ∃ fl' l, SegInv s' fl' (⟨s.wFreeNodeIndex, s.wFreeNodeIndex :: l, some pdata⟩ :: es) ms ∧
      (∀ j ∉ s.wFreeNodeIndex :: l, s'.node j = s.node j) ∧
      s'.Filled (s.wFreeNodeIndex :: l) := by
  obtain ⟨k, hk, hlo, hhi⟩ := needCount_spec c hn hmax
  rw [hk] at hs
  -- the free list is the first node, the `k` others of the chain, and the rest
  obtain ⟨a, l, rest, rfl, hl⟩ : ∃ a l rest, fl = a :: (l ++ rest) ∧ l.length = k := by
    cases fl with
    | nil => rw [length_nil] at hroom; omega
    | cons a t =>
      refine ⟨a, t.take k, t.drop k, by rw [take_append_drop], ?_⟩
      rw [length_take]
      simp only [length_cons] at hroom
      omega
  have ha : s.wFreeNodeIndex = a := h.free.1
  have hnd := nodup_append.mp h.nodup
  have hne : ∀ i ∈ a :: l, i ≠ 0 := fun i hi =>
    (h.bounds (mem_append_left _ (mem_append_left rest hi))).1
  obtain ⟨hf, hU⟩ : s.next a = s.getFreeNode.wFreeNodeIndex ∧
      (s.getFreeNode.addUsed (k + 1)).wNodeUsed = s.wNodeUsed + (k + 1) := by
    have hlen := h.length
    have hsize := h.size
    refine ⟨by rw [← ha]; rfl, Nat.mod_eq_of_lt ?_⟩
    show s.wNodeUsed + (k + 1) < 65536
    omega
  rw [ha] at hs ⊢
  obtain ⟨hcpy, hfill⟩ : Copied pdata 0 a l rest (s.getFreeNode.addUsed (k + 1)) s' ∧
      s'.Filled (a :: l) := by
    rw [hs, ← hl]
    refine saveLoop (by cases c <;> decide) (by cases c <;> decide) ?_ hnd.1 hne
      (by rw [hl]; omega) (by rw [hl]; omega)
    rw [show (s.getFreeNode.addUsed (l.length + 1)).wFreeNodeIndex = s.next a from hf.symm]
    exact h.free.2.congr fun j _ => next_congr rfl rfl
  -- the nodes of every other list are outside the new chain
  have hout : ∀ j ∈ es.flatMap Entry.chain ++ ms, s'.node j = s.node j := fun j hj =>
    hcpy.node j fun hm => hnd.2.2 j (mem_append_left rest hm) j hj rfl
  have hN : s'.wNodeCount = s.wNodeCount := hcpy.count
  refine ⟨rest, l, ⟨by rw [hN]; exact h.pos, by rw [hN]; exact h.size, by rw [hN]; exact hcpy.free,
    fun e he => ?_, fun j hj => ?_, ?_, ?_⟩, hcpy.node, hfill⟩
  · rcases mem_cons.mp he with rfl | he'
    · refine ⟨by rw [hN]; exact hcpy.chain, cons_ne_nil _ _, fun d hd => ?_⟩
      cases hd; exact hcpy.data
    · exact (h.entry e he').congr hN fun j hj =>
        hout j (mem_append_left _ (mem_chain he' hj))
  · rw [hN, next_congr hN (hout j (mem_append_right _ hj))]
    exact h.marked j hj
  · rw [hN]
    refine List.Perm.trans ?_ h.perm
    rw [perm_iff_count]; simp only [flatMap_cons, count_append, count_cons]; omega
  · rw [hcpy.used, hU, h.used]
    simp only [flatMap_cons, length_append, length_cons]; omega

/-- **Save with room.** The chain taken from the free list holds the data. -/
theorem saveInto {c : NodeLen} (h : SegInv s fl es ms)
    (hn : pdata.length ≠ 0) (hmax : pdata.length ≤ maxDataLen)
    (hroom : needCount c.len pdata.length ≤ fl.length) :
    ∃ fl' ms' l, SegInv (s.saveInto c.len pdata).1 fl'
      (⟨(s.saveInto c.len pdata).2, (s.saveInto c.len pdata).2 :: l, some pdata⟩ :: es) ms' := by
  obtain ⟨fl1, ms1, h1, hl1⟩ := h.scanFreeNode
  unfold Segment.saveInto
  generalize s.scanFreeNode = s1 at h1
  obtain ⟨fl', l, h', _⟩ := h1.saveChain hn hmax (le_trans hroom hl1) rfl
  exact ⟨fl', ms1, l, h'.unlock⟩

/-- **Save.** A segment's turn either passes or adds one entry with the
data. -/
theorem save {c : NodeLen} {now : Nat} {r : Option Nat}
    (h : SegInv s fl es ms) (hn : pdata.length ≠ 0) (hmax : pdata.length ≤ maxDataLen)
    (hs : s.save c.len pdata now = (s', r)) :
    (r = none ∧ ∃ fl' ms', SegInv s' fl' es ms') ∨
      ∃ a l fl' ms', r = some a ∧ SegInv s' fl' (⟨a, a :: l, some pdata⟩ :: es) ms' := by
  -- with room, the save goes through
  have hroom : ∀ {s} {fl ms}, SegInv s fl es ms →
      ¬ s.wNodeCount < s.wNodeUsed + needCount c.len pdata.length →
      ∃ a l fl' ms', some (s.saveInto c.len pdata).2 = some a ∧
        SegInv (s.saveInto c.len pdata).1 fl' (⟨a, a :: l, some pdata⟩ :: es) ms' := by
    intro s fl ms h hlt
    have hlen := h.length
    obtain ⟨fl', ms', l, h'⟩ := h.saveInto hn hmax (c := c) (by omega)
    exact ⟨_, l, fl', ms', rfl, h'⟩
  unfold Segment.save at hs
  split at hs
  · cases hs; exact .inl ⟨rfl, fl, ms, h⟩
  rename_i s0 hlock
  have h0 := h.tryLock hlock
  dsimp only at hs
  split at hs
  · obtain ⟨fl1, ms1, h1, _⟩ := h0.scanFreeNode
    split at hs
    · obtain ⟨rfl, rfl⟩ := Prod.mk.inj hs
      exact .inl ⟨rfl, fl1, ms1, h1.unlock⟩
    · rename_i hlt
      obtain ⟨rfl, rfl⟩ := Prod.mk.inj hs
      exact .inr (hroom h1 hlt)
  · rename_i hlt
    obtain ⟨rfl, rfl⟩ := Prod.mk.inj hs
    exact .inr (hroom h0 hlt)

/-! ## Get -/

/-- **Get.** A long enough buffer receives the bytes of the rest of the
chain. -/
theorem getLoop {n : Int} :
    ∀ {c} {i fuel} {iBufLen} {iDataLen} {out d},
      Linked s.next s.wNodeCount i (i :: c) → (∀ j ∈ i :: c, j ≠ 0 ∧ j < s.wNodeCount) →
      s.Holds (i :: c) d → c.length < fuel → (d.length : Int) ≤ iBufLen →
      s.getLoop n fuel i iBufLen iDataLen out = some ⟨0, out ++ d, (iDataLen + d.length : Nat)⟩
  | c, i, 0, _, _, _, _, _, _, _, hf, _ => by omega
  | c, i, fuel + 1, iBufLen, iDataLen, out, d, hl, hb, hd, hf, hr => by
    have hi := (hb i mem_cons_self).1
    obtain ⟨d', hd', hdd, hlen⟩ := hd.uncons
    rw [Segment.getLoop, Segment.dataLen_of_ne hi, if_neg (by omega)]
    cases c with
    | nil =>
      have hstop : s.next i = s.wNodeCount := hl.2
      have hnil : d' = [] := hd'.bytes.symm
      rw [hstop, if_neg (lt_irrefl _)]
      subst hnil
      rw [append_nil] at hdd
      rw [hdd, ← hlen, length_nil, add_zero]
    | cons k c =>
      have hk : s.next i = k := hl.2.1
      rw [hk, if_pos (hb k (by simp)).2]
      rw [getLoop ⟨rfl, hl.2.2⟩ (fun j hj => hb j (mem_cons_of_mem _ hj)) hd'
        (by simpa using hf) (by omega), append_assoc, hdd, add_assoc, hlen]

end SegInv

end DesPwd.L2.Vmem
