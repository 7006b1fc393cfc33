import DesPwd.Core.Run
import DesPwd.L2Machine.VmemInv

/-!
# The variable-length pool as a store

What the agent library promises of `MtReport_SaveToVmem`,
`MtReport_GetFromVmem` and `MtReport_FreeVmem`: a handle reads back the bytes
that were saved under it until it is freed.

`PoolInv g live pend` ties the pool `g` to the abstract store: `live` lists
the handles in use with their bytes, `pend` the chains that a free without
the flag has not finished. Every call keeps it (`PoolInv.saveToVmem`,
`PoolInv.freeVmem`, `PoolInv.checkVmem`, `PoolInv.scanNode`), and it makes
reading exact (`PoolInv.getFromVmem`).

`store_reads_back`: after any sequence of calls that frees only live handles,
every call returned and every live handle reads back its bytes.
-/
namespace DesPwd.L2.Vmem

open Links Run List Pool
open Function (update)

/-! ## Handles -/

theorem makeIdx32_eq {len t n : Nat} (hl : len < 256) (hn : n < 65536) :
    makeIdx32 len t n = t * 16777216 + len * 65536 + n := by
  unfold makeIdx32
  rw [Nat.zero_or, ← Nat.shiftLeft_add_eq_or_of_lt (show len < 2 ^ 8 from hl),
    ← Nat.shiftLeft_add_eq_or_of_lt (show n < 2 ^ 16 from hn)]
  omega

/-- The segment a handle names. -/
def InSeg (c : NodeLen) (j : Nat) (h : Int) : Prop :=
  NodeLen.ofLen (parseLen h) = some c ∧ parseTIdx h = j

instance (c : NodeLen) (j : Nat) (h : Int) : Decidable (InSeg c j h) :=
  inferInstanceAs (Decidable (_ ∧ _))

/-- A handle is parsed back into what it was made of. -/
theorem parse_makeIdx32 (c : NodeLen) {t n : Nat} (ht : t < 256) (hn : n < 65536) :
    InSeg c t (makeIdx32 c.len t n) ∧ parseNIdx (makeIdx32 c.len t n) = n := by
  have hlen : c.len < 256 := by cases c <;> decide
  rw [makeIdx32_eq hlen hn]
  refine ⟨⟨?_, ?_⟩, ?_⟩
  · rw [show parseLen ↑(t * 16777216 + c.len * 65536 + n) = c.len by
      unfold parseLen; omega]
    cases c <;> rfl
  · unfold parseTIdx; omega
  · unfold parseNIdx; omega

theorem InSeg.unique {c c' : NodeLen} {j j' : Nat} {h : Int} (h1 : InSeg c j h)
    (h2 : InSeg c' j' h) : c' = c ∧ j' = j :=
  ⟨Option.some.inj (h2.1.symm.trans h1.1), h2.2.symm.trans h1.2⟩

/-! ## The invariant of the pool -/

/-- A chain of a segment as its owner knows it: where it starts, and the
bytes unless it is being freed. -/
def Entry.root (e : Entry) : Nat × Option (List UInt8) := (e.head, e.data)

/-- The chains of segment `j` of class `c`. -/
def roots (live : List (Int × List UInt8)) (pend : List (NodeLen × Nat × Nat)) (c : NodeLen)
    (j : Nat) : List (Nat × Option (List UInt8)) :=
  live.filterMap (fun p => if InSeg c j p.1 then some (parseNIdx p.1, some p.2) else none) ++
    pend.filterMap (fun p => if p.1 = c ∧ p.2.1 = j then some (p.2.2, none) else none)

/-- A segment in order, as `I` says, that holds exactly the chains `rs`. -/
def SegHolds (I : Segment → List Nat → List Entry → List Nat → Prop) (s : Segment)
    (rs : List (Nat × Option (List UInt8))) : Prop :=
  ∃ fl es ms, I s fl es ms ∧ (es.map Entry.root).Perm rs

abbrev SegOk := SegHolds SegInv

/-- `n` segments for each size that hold exactly the chains of `live` and `pend`. -/
structure SegsHold (I : Segment → List Nat → List Entry → List Nat → Prop) (n : Nat)
    (segs : NodeLen → Nat → Segment) (live : List (Int × List UInt8))
    (pend : List (NodeLen × Nat × Nat)) : Prop where
  handle : ∀ p ∈ live, ∃ c j, j < n ∧ InSeg c j p.1
  cursor : ∀ p ∈ pend, p.2.1 < n
  seg : ∀ c j, j < n → SegHolds I (segs c j) (roots live pend c j)

structure PoolInv (g : Pool) (live : List (Int × List UInt8))
    (pend : List (NodeLen × Nat × Nat)) : Prop extends SegsHold SegInv shmCount g.seg live pend where
  isInit : g.cIsInit = true
  isVmemInit : g.cIsVmemInit = true

variable {s : Segment}

theorem SegInv.chain_cons {fl ms : List Nat} {es : List Entry} {e : Entry}
    (h : SegInv s fl es ms) (he : e ∈ es) : ∃ c, e.chain = e.head :: c := by
  have hok := h.entry e he
  cases hc : e.chain with
  | nil => exact absurd hc hok.ne
  | cons a c =>
    have hl := hok.linked
    rw [hc] at hl
    exact ⟨c, by rw [hl.1]⟩

/-- The entry of one of the chains of a segment, with the others. -/
theorem SegInv.first {fl ms : List Nat} {es : List Entry} {i : Nat} {d : Option (List UInt8)}
    {rs : List (Nat × Option (List UInt8))} (h : SegInv s fl es ms)
    (hr : (es.map Entry.root).Perm ((i, d) :: rs)) :
    ∃ l es', es.Perm (⟨i, i :: l, d⟩ :: es') ∧ (es'.map Entry.root).Perm rs := by
  obtain ⟨⟨i, c, d⟩, he, ⟨⟩⟩ := mem_map.mp (hr.mem_iff.mpr mem_cons_self)
  obtain ⟨l, rfl⟩ : ∃ l, c = i :: l := h.chain_cons he
  have hp := perm_cons_erase he
  exact ⟨l, _, hp, ((hp.map Entry.root).symm.trans hr).cons_inv⟩

theorem update_seg (segs : NodeLen → Nat → Segment) (c c' : NodeLen) (j j' : Nat) (s : Segment) :
    update segs c (update (segs c) j s) c' j' = if c' = c ∧ j' = j then s else segs c' j' := by
  by_cases hc : c' = c
  · subst hc
    by_cases hj : j' = j
    · subst hj; simp
    · simp [hj]
  · simp [hc]

theorem Pool.seg_setSeg (g : Pool) (c c' : NodeLen) (j j' : Nat) (s : Segment) :
    (g.setSeg c j s).seg c' j' = if c' = c ∧ j' = j then s else g.seg c' j' :=
  update_seg g.seg c c' j j' s

theorem Pool.setSeg_self (g : Pool) (c : NodeLen) (j : Nat) : g.setSeg c j (g.seg c j) = g := by
  simp [setSeg]

section

variable {live live' : List (Int × List UInt8)} {pend pend' : List (NodeLen × Nat × Nat)}
  {c : NodeLen} {j : Nat} {h : Int}

/-- The chains after a save under handle `h`. -/
theorem roots_cons_live (hs : InSeg c j h) (d : List UInt8) :
    roots ((h, d) :: live) pend c j = (parseNIdx h, some d) :: roots live pend c j := by
  simp [roots, hs]

theorem roots_cons_live_of_ne {c' : NodeLen} {j' : Nat} (hs : InSeg c j h)
    (hne : ¬ (c' = c ∧ j' = j)) (d : List UInt8) :
    roots ((h, d) :: live) pend c' j' = roots live pend c' j' := by
  have hn : ¬ InSeg c' j' h := fun h' => hne (hs.unique h')
  simp [roots, hn]

namespace SegsHold

variable {I : Segment → List Nat → List Entry → List Nat → Prop} {n : Nat}
  {segs : NodeLen → Nat → Segment} {p : Int × List UInt8}

theorem perm (h : SegsHold I n segs live pend) (hl : live.Perm live') (hp : pend.Perm pend') :
    SegsHold I n segs live' pend' where
  handle p hm := h.handle p (hl.mem_iff.mpr hm)
  cursor p hm := h.cursor p (hp.mem_iff.mpr hm)
  seg c j hj := by
    obtain ⟨fl, es, ms, hs, hr⟩ := h.seg c j hj
    exact ⟨fl, es, ms, hs, hr.trans ((hl.filterMap _).append (hp.filterMap _))⟩

/-- Writing one segment back, when its own chains are in order and the
others' have not changed. -/
theorem setSeg (h : SegsHold I n segs live pend)
    (hl : ∀ p ∈ live', ∃ c j, j < n ∧ InSeg c j p.1) (hp : ∀ p ∈ pend', p.2.1 < n)
    (hs : j < n → SegHolds I s (roots live' pend' c j))
    (ho : ∀ c' j', ¬ (c' = c ∧ j' = j) → roots live' pend' c' j' = roots live pend c' j') :
    SegsHold I n (update segs c (update (segs c) j s)) live' pend' where
  handle := hl
  cursor := hp
  seg c' j' hj := by
    rw [update_seg]
    split
    · rename_i he
      obtain ⟨rfl, rfl⟩ := he
      exact hs hj
    · rename_i he
      rw [ho c' j' he]
      exact h.seg c' j' hj

/-- A segment that took a value: the handle names its new chain. -/
theorem save {fl ms l : List Nat} {es : List Entry} {a : Nat} {d : List UInt8}
    (h : SegsHold I n segs live pend) (hj : j < n) (hj' : j < 256) (ha : a < 65536)
    (hs : I s fl (⟨a, a :: l, some d⟩ :: es) ms) (hr : (es.map Entry.root).Perm (roots live pend c j)) :
    SegsHold I n (update segs c (update (segs c) j s)) ((makeIdx32 c.len j a, d) :: live) pend := by
  obtain ⟨hin, hidx⟩ := parse_makeIdx32 c hj' ha
  refine h.setSeg (fun p hp => ?_) h.cursor (fun _ => ⟨fl, _, ms, hs, ?_⟩)
    (fun c' j' hne => roots_cons_live_of_ne hin hne d)
  · rcases mem_cons.mp hp with rfl | hp'
    · exact ⟨c, j, hj, hin⟩
    · exact h.handle p hp'
  · rw [roots_cons_live hin, hidx]
    exact hr.cons _

/-- Taking a handle out, its segment written back without its chain. -/
theorem drop_live (h : SegsHold I n segs (p :: live) pend) (hin : InSeg c j p.1)
    (hs : SegHolds I s (roots live pend c j)) :
    SegsHold I n (update segs c (update (segs c) j s)) live pend :=
  h.setSeg (fun q hq => h.handle q (mem_cons_of_mem _ hq)) h.cursor (fun _ => hs)
    fun _ _ hne => (roots_cons_live_of_ne hin hne p.2).symm

/-- The chain of a live handle; `I` is the order of a segment with more that does not depend
on the order of the entries. -/
theorem live_entry (h : SegsHold I n segs (p :: live) pend)
    (hI : ∀ {s fl es ms}, I s fl es ms → SegInv s fl es ms)
    (hes : ∀ {s fl es ms}, I s fl es ms → ∀ {es'}, es.Perm es' → I s fl es' ms)
    (hj : j < n) (hin : InSeg c j p.1) :
    ∃ fl l es ms, I (segs c j) fl (⟨parseNIdx p.1, parseNIdx p.1 :: l, some p.2⟩ :: es) ms ∧
      (es.map Entry.root).Perm (roots live pend c j) := by
  obtain ⟨fl, es, ms, hseg, hr⟩ := h.seg c j hj
  rw [roots_cons_live hin] at hr
  obtain ⟨l, es', hp, hperm⟩ := (hI hseg).first hr
  exact ⟨fl, l, es', ms, hes hseg hp, hperm⟩

end SegsHold

end

namespace PoolInv

variable {g : Pool} {live live' : List (Int × List UInt8)} {pend pend' : List (NodeLen × Nat × Nat)}

theorem perm (h : PoolInv g live pend) (hl : live.Perm live') (hp : pend.Perm pend') :
    PoolInv g live' pend' :=
  ⟨h.toSegsHold.perm hl hp, h.isInit, h.isVmemInit⟩

theorem of_seg_eq {g' : Pool} (h : PoolInv g live pend) (h1 : g'.cIsInit = g.cIsInit)
    (h2 : g'.cIsVmemInit = g.cIsVmemInit) (h3 : g'.seg = g.seg) : PoolInv g' live pend :=
  ⟨h3 ▸ h.toSegsHold, h1.trans h.isInit, h2.trans h.isVmemInit⟩

variable {c : NodeLen} {j : Nat} {s : Segment} {h : Int} {p : Int × List UInt8}

theorem of_segs (h : PoolInv g live pend)
    (hs : SegsHold SegInv shmCount (g.setSeg c j s).seg live' pend') :
    PoolInv (g.setSeg c j s) live' pend' :=
  ⟨hs, h.isInit, h.isVmemInit⟩

theorem setSeg_kept (h : PoolInv g live pend) (hs : SegOk s (roots live pend c j)) :
    PoolInv (g.setSeg c j s) live pend :=
  h.of_segs (h.setSeg h.handle h.cursor (fun _ => hs) fun _ _ _ => rfl)

/-! ## Save -/

/-- What a call that may save leaves: a negative code and the same chains, or
a handle that is now live. -/
def Saved (live : List (Int × List UInt8)) (pend : List (NodeLen × Nat × Nat))
    (pdata : List UInt8) (r : Pool × Int) : Prop :=
  (r.2 < 0 ∧ PoolInv r.1 live pend) ∨ (0 ≤ r.2 ∧ PoolInv r.1 ((r.2, pdata) :: live) pend)

theorem saveClassFrom (c : NodeLen) {pdata : List UInt8} (now : Nat) (hn : pdata.length ≠ 0)
    (hmax : pdata.length ≤ maxDataLen) :
    ∀ {n i} {g}, PoolInv g live pend → i + n = shmCount →
      Saved live pend pdata (saveClassFrom c pdata now n i g)
  | 0, _, _, h, _ => .inl ⟨by simp [Pool.saveClassFrom], h⟩
  | n + 1, i, g, h, hi => by
    obtain ⟨fl, es, ms, hseg, hr⟩ := h.seg c i (by omega)
    unfold Pool.saveClassFrom
    split
    · rename_i s a hs
      -- the segment took the value: the handle names its new chain
      rcases hseg.save hn hmax hs with ⟨hnone, _⟩ | ⟨a', l, fl', ms', ha, h'⟩
      · cases hnone
      cases ha
      have hb := h'.bounds (i := a) (by simp)
      have hsz := h'.size
      have hi5 : i < 256 := by unfold shmCount at hi; omega
      exact .inr ⟨Int.natCast_nonneg _,
        h.of_segs (h.toSegsHold.save (by omega) hi5 (by omega) h' hr)⟩
    · rename_i s hs
      rcases hseg.save hn hmax hs with ⟨_, fl', ms', h'⟩ | ⟨a', l, fl', ms', ha, _⟩
      · exact saveClassFrom c now hn hmax (h.setSeg_kept ⟨fl', es, ms', h', hr⟩) (by omega)
      · cases ha

theorem saveTry {pdata : List UInt8} {now : Nat} (hn : pdata.length ≠ 0)
    (hmax : pdata.length ≤ maxDataLen) :
    ∀ {cs} {g} {ret}, PoolInv g live pend → ret < 0 →
      Saved live pend pdata (saveTry pdata now cs g ret)
  | [], _, _, h, hr => .inl ⟨hr, h⟩
  | c :: cs, g, _, h, _ => by
    unfold Pool.saveTry
    have h1 := saveClassFrom c now hn hmax (n := shmCount) (i := 0) h (by simp)
    unfold saveClass
    dsimp only
    split
    · rename_i hneg
      rcases h1 with ⟨_, h1⟩ | ⟨h0, _⟩
      · exact saveTry hn hmax h1 hneg
      · omega
    · exact h1

/-- **Save.** -/
theorem saveToVmem (h : PoolInv g live pend) (pdata : List UInt8) (now : Nat) :
    Saved live pend pdata (g.saveToVmem pdata now) := by
  unfold Pool.saveToVmem
  split
  · exact .inl ⟨by simp, h⟩
  split
  · exact .inl ⟨by simp, h⟩
  · rename_i hlen
    rw [not_or, not_lt] at hlen
    exact saveTry hlen.1 hlen.2 h (by decide)

/-! ## Get -/

theorem live_entry (h : PoolInv g (p :: live) pend) (hj : j < shmCount) (hin : InSeg c j p.1) :
    ∃ fl l es ms, SegInv (g.seg c j) fl (⟨parseNIdx p.1, parseNIdx p.1 :: l, some p.2⟩ :: es) ms ∧
      (es.map Entry.root).Perm (roots live pend c j) :=
  h.toSegsHold.live_entry id SegInv.perm_es hj hin

theorem fresh {d : List UInt8} (hi : PoolInv g ((h, d) :: live) pend) (d' : List UInt8) :
    (h, d') ∉ live := by
  intro hmem
  obtain ⟨c, j, hj, hin⟩ := hi.handle _ mem_cons_self
  obtain ⟨fl, l, es, ms, hseg, hperm⟩ := hi.live_entry hj hin
  have hroot : (parseNIdx h, some d') ∈ roots live pend c j :=
    mem_append_left _ (mem_filterMap.2 ⟨(h, d'), hmem, if_pos hin⟩)
  obtain ⟨e, he, hr⟩ := mem_map.1 (hperm.mem_iff.2 hroot)
  -- the chain of the second value would start at a node of the first
  have hchain : parseNIdx h ∈ e.chain := by
    obtain ⟨l', hl'⟩ := hseg.chain_cons (mem_cons_of_mem _ he)
    rw [hl', ← (Prod.mk.inj hr).1]
    exact mem_cons_self
  have hnd := hseg.nodup
  have hnd := (nodup_append.1 (nodup_append.1 (nodup_append.1 hnd).2.1).1).2.2
  exact hnd _ mem_cons_self _ (SegInv.mem_chain he hchain) rfl

theorem chain_lt {fl ms l : List Nat} {es : List Entry} {i : Nat}
    {d : Option (List UInt8)} (h : SegInv s fl (⟨i, i :: l, d⟩ :: es) ms) :
    l.length < s.wNodeCount := by
  have h1 := h.length
  have h2 := h.used
  simp only [flatMap_cons, length_append, length_cons] at h2
  omega

/-- **Get.** -/
theorem getFromVmem {n : Int} (h : PoolInv g live pend) (hp : p ∈ live)
    (hn : (p.2.length : Int) ≤ n) :
    g.getFromVmem p.1 n = some ⟨0, p.2, p.2.length⟩ := by
  obtain ⟨c, j, hj, hin⟩ := h.handle p hp
  have h0 := h.perm (perm_cons_erase hp) (List.Perm.refl pend)
  obtain ⟨fl, l, es, ms, hseg, _⟩ := h0.live_entry hj hin
  have hok := hseg.entry _ mem_cons_self
  have hb : ∀ i ∈ parseNIdx p.1 :: l, i ≠ 0 ∧ i < (g.seg c j).wNodeCount := fun i hi =>
    hseg.bounds (mem_append_right _ (mem_append_left _ (SegInv.mem_chain mem_cons_self hi)))
  have hget : (g.seg c j).getLoop n (g.seg c j).wNodeCount (parseNIdx p.1) n 0 [] =
      some ⟨0, [] ++ p.2, (0 + p.2.length : Nat)⟩ :=
    SegInv.getLoop hok.linked hb (hok.data _ rfl) (chain_lt hseg) hn
  have hj' : ¬ shmCount < j := by omega
  simp [Pool.getFromVmem, h.isInit, hin.1, hin.2, hj, hj', (hb _ mem_cons_self).2, hget]

/-! ## Free -/

/-- **Free.** Freeing a live handle returns 0 and takes exactly its value
out of the store. -/
theorem freeVmem (h : PoolInv g (p :: live) pend) (now : Nat) :
    ∃ g', g.freeVmem p.1 now = some (g', 0) ∧ PoolInv g' live pend := by
  obtain ⟨c, j, hj, hin⟩ := h.handle p mem_cons_self
  obtain ⟨fl, l, es, ms, hseg, hperm⟩ := h.live_entry hj hin
  have hb := hseg.bounds (i := parseNIdx p.1) (by simp)
  have hj' : ¬ shmCount ≤ j := by omega
  cases hlock : (g.seg c j).tryLock now with
  | some s1 =>
    have hseg1 := hseg.tryLock hlock
    obtain ⟨s', fl', ms', hr, h', -⟩ := hseg1.freeLoop true (chain_lt hseg1)
    refine ⟨g.setSeg c j s'.unlock, ?_, h.of_segs (h.drop_live hin ⟨fl', es, ms', h'.unlock, hperm⟩)⟩
    simp [Pool.freeVmem, h.isInit, hin.1, hin.2, hj', hb.2, hlock, hr]
  | none =>
    obtain ⟨s', fl', ms', hr, h', -⟩ := hseg.freeLoop false (chain_lt hseg)
    refine ⟨g.setSeg c j s', ?_, h.of_segs (h.drop_live hin ⟨fl', es, ms', h', hperm⟩)⟩
    simp [Pool.freeVmem, h.isInit, hin.1, hin.2, hj', hb.2, hlock, hr]

/-! ## Check and scan -/

theorem checkClassFrom (c : NodeLen) :
    ∀ {g} n j cnt, PoolInv g live pend → j + n = shmCount →
      ∃ g' k, g.checkClassFrom c n j cnt = some (g', k) ∧ PoolInv g' live pend
  | g, 0, _, cnt, h, _ => ⟨g, cnt, rfl, h⟩
  | g, n + 1, j, cnt, h, hj => by
    obtain ⟨fl, es, ms, hseg, hr⟩ := h.seg c j (by omega)
    obtain ⟨s', k, hc, fl', ms', h', _⟩ := hseg.checkLoop (g.seg c j).wNodeCount 1 cnt (by decide)
    rw [Pool.checkClassFrom, hc]
    exact checkClassFrom c n (j + 1) k (h.setSeg_kept ⟨fl', es, ms', h', hr⟩) (by omega)

theorem checkAll : ∀ {g} cs cnt, PoolInv g live pend →
      ∃ g' k, g.checkAll cs cnt = some (g', k) ∧ PoolInv g' live pend
  | g, [], cnt, h => ⟨g, cnt, rfl, h⟩
  | g, c :: cs, cnt, h => by
    obtain ⟨g1, k1, hc, h1⟩ := checkClassFrom c shmCount 0 cnt h (by simp)
    obtain ⟨g', k, hr, h'⟩ := checkAll cs k1 h1
    exact ⟨g', k, by rw [Pool.checkAll, hc]; exact hr, h'⟩

/-- **Check.** -/
theorem checkVmem (h : PoolInv g live pend) :
    ∃ g' r, g.checkVmem = some (g', r) ∧ PoolInv g' live pend := by
  obtain ⟨g', k, hr, h'⟩ := checkAll [.n16, .n32, .n64, .n128, .n255] 0 h
  refine ⟨g', k, ?_, h'⟩
  simp [Pool.checkVmem, h.isInit, h.isVmemInit, hr]

theorem scanNodeInner (h : PoolInv g live pend) (c : NodeLen) (j i cnt now : Nat) :
    ∃ g' r, g.scanNodeInner c j i cnt now = some (g', r) ∧ PoolInv g' live pend := by
  unfold Pool.scanNodeInner
  split
  · exact ⟨g, _, rfl, h⟩
  obtain ⟨fl, es, ms, hseg, hr⟩ := h.seg c j (by omega)
  split
  · exact ⟨g, _, rfl, h⟩
  · rename_i s1 hlock
    obtain ⟨s', k, hl, fl', ms', h', _⟩ := (hseg.tryLock hlock).scanLoop cnt i
    rw [hl]
    exact ⟨_, _, rfl, h.setSeg_kept ⟨fl', es, ms', h'.unlock, hr⟩⟩

/-- **Scan.** -/
theorem scanNode (h : PoolInv g live pend) (n : Int) (now : Nat) :
    ∃ g' r, g.scanNode n now = some (g', r) ∧ PoolInv g' live pend := by
  obtain ⟨g1, r1, hr, h1⟩ := h.scanNodeInner g.iCurScanLen g.iCurScanArrIdx g.iNodeIdx
    (if n < 1000 then 1000 else n.toNat) now
  unfold Pool.scanNode
  dsimp only
  rw [hr]
  dsimp only
  split
  · split
    · exact ⟨_, _, rfl, h1.of_seg_eq rfl rfl rfl⟩
    · exact ⟨_, _, rfl, h1.of_seg_eq rfl rfl rfl⟩
  split
  · exact ⟨_, _, rfl, h1.of_seg_eq rfl rfl rfl⟩
  · exact ⟨_, _, rfl, h1⟩

/-! ## Creation -/

theorem linked_range' (next : Nat → Nat) :
    ∀ {n a}, (∀ i, a ≤ i → i < a + n → next i = i + 1) →
      Linked next (a + n) a (List.range' a n)
  | 0, _, _ => rfl
  | n + 1, a, h => by
    refine ⟨rfl, ?_⟩
    rw [h a (le_refl _) (by omega)]
    have := linked_range' next (n := n) (a := a + 1) fun i h1 h2 => h i (by omega) (by omega)
    rwa [show a + 1 + n = a + (n + 1) by omega] at this

theorem createInit {len n : Nat} (h1 : 1 < n) (h2 : n + 1 < 65536) :
    SegInv ((Segment.zero len).createInit n) (List.range' 1 (n - 1)) [] [] where
  pos := h1
  size := h2
  free := by
    have := linked_range' ((Segment.zero len).createInit n).next (n := n - 1) (a := 1) ?_
    · rwa [show 1 + (n - 1) = n by omega] at this
    · intro i hi hlt
      have : i < n := by omega
      simp [Segment.next, Segment.createInit, this, show i ≠ 0 by omega]
  entry e he := by cases he
  marked i hi := by cases hi
  perm := by simp [Segment.createInit]
  used := rfl

theorem initVmem : PoolInv initVmem [] [] where
  isInit := rfl
  isVmemInit := rfl
  handle p hp := by cases hp
  cursor p hp := by cases hp
  seg c j _ := ⟨_, [], [], createInit (by cases c <;> decide) (by cases c <;> decide),
    List.Perm.refl _⟩

end PoolInv

/-! ## The store -/

/-- The pool, and the handles in use with the bytes saved under them. -/
structure Store where
  pool : Pool
  live : List (Int × List UInt8)

/-- A call of the library; `now` is the time it reads. -/
inductive Op where
  | save (pdata : List UInt8) (now : Nat)
  | free (index : Int) (now : Nat)
  | scan (iScanCount : Int) (now : Nat)
  | check
  deriving DecidableEq

namespace Store

/-- One call. A save that returns a handle makes it live, a free ends that. -/
def exec (st : Store) : Op → Option Store
  | .save pdata now =>
    let r := st.pool.saveToVmem pdata now
    some ⟨r.1, if 0 ≤ r.2 then (r.2, pdata) :: st.live else st.live⟩
  | .free index now =>
    (st.pool.freeVmem index now).map fun r => ⟨r.1, st.live.eraseP (fun p => p.1 == index)⟩
  | .scan iScanCount now => (st.pool.scanNode iScanCount now).map fun r => ⟨r.1, st.live⟩
  | .check => st.pool.checkVmem.map fun r => ⟨r.1, st.live⟩

/-- Only live handles are freed. -/
def Legal (st : Store) (op : Op) : Prop :=
  ∀ index now, op = .free index now → ∃ d, (index, d) ∈ st.live

def initial : Store := ⟨initVmem, []⟩

theorem exec_inv (st : Store) (op : Op) (h : PoolInv st.pool st.live []) (hlegal : st.Legal op) :
    ∃ st', st.exec op = some st' ∧ PoolInv st'.pool st'.live [] := by
  cases op with
  | save pdata now =>
    refine ⟨_, rfl, ?_⟩
    rcases h.saveToVmem pdata now with ⟨hneg, h'⟩ | ⟨hpos, h'⟩
    · rw [if_neg (Int.not_le.mpr hneg)]; exact h'
    · rw [if_pos hpos]; exact h'
  | free index now =>
    obtain ⟨d, hd⟩ := hlegal index now rfl
    obtain ⟨p, l1, l2, _, hp, hl, he⟩ :=
      exists_of_eraseP (p := fun p => p.1 == index) hd (by simp)
    obtain rfl : p.1 = index := by simpa using hp
    have h0 : PoolInv st.pool (p :: (l1 ++ l2)) [] :=
      h.perm (by rw [hl]; exact perm_middle) (List.Perm.refl _)
    obtain ⟨g', hr, h'⟩ := h0.freeVmem now
    exact ⟨⟨g', st.live.eraseP fun q => q.1 == p.1⟩, by simp [exec, hr], by rw [he]; exact h'⟩
  | scan n now =>
    obtain ⟨g', r, hr, h'⟩ := h.scanNode n now
    exact ⟨⟨g', st.live⟩, by simp [exec, hr], h'⟩
  | check =>
    obtain ⟨g', r, hr, h'⟩ := h.checkVmem
    exact ⟨⟨g', st.live⟩, by simp [exec, hr], h'⟩

/-- **The store.** From the state `MtReport_InitVmem` creates, every sequence
of calls that frees only live handles runs to its end, and then every live
handle reads back exactly the bytes saved under it. -/
theorem store_reads_back (ops : List Op) (h : Meets exec Legal ops initial) :
    ∃ st, run exec ops initial = some st ∧ ∀ p ∈ st.live, ∀ n : Int, (p.2.length : Int) ≤ n →
        st.pool.getFromVmem p.1 n = some ⟨0, p.2, p.2.length⟩ := by
  obtain ⟨st, hr, hi⟩ := run_inv exec_inv PoolInv.initVmem h
  exact ⟨st, hr, fun p hp n hn => hi.getFromVmem hp hn⟩

/-- A value saved and freed, and another one saved. -/
theorem store_reads_back_save_free_save :
    ∃ st, run exec [.save [7, 8] 5, .free 1048577 6, .save [9] 7] initial = some st ∧
      ∀ p ∈ st.live, ∀ n : Int, (p.2.length : Int) ≤ n →
        st.pool.getFromVmem p.1 n = some ⟨0, p.2, p.2.length⟩ := by
  refine store_reads_back _ ⟨by rintro _ _ ⟨⟩, fun st' h => ⟨?_, fun _ _ => ?_⟩⟩
  · rintro _ _ ⟨⟩
    obtain rfl := Option.some.inj h
    exact ⟨[7, 8], by decide +kernel⟩
  · exact ⟨by rintro _ _ ⟨⟩, fun _ _ => trivial⟩

end Store

end DesPwd.L2.Vmem
