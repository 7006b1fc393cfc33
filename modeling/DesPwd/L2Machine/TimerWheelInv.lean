import DesPwd.Core.RingFamily
import DesPwd.L2Machine.TimerWheel
import Mathlib.Data.List.Perm.Subperm

/-!
# The timer wheel: the invariant

Where a timer may be linked depends on the tick `T` that the wheel has come to
and, for each of the levels above `tv1`, on the next list that is to be
cascaded. `Placed` says this for one timer, `Inv` for the wheel: every list is
a ring, every active timer is on the list its expire tick asks for.

* `placed_vec`: `InternalAddTimer` chooses such a list.
* `Inv.arm`, `Inv.del`: setting and taking a timer.
-/
namespace DesPwd.L2.TimerWheel

open Rings List Timer
open Function (update update_self update_of_ne)

/-! ## Levels -/

/-- The ticks that one list of a level above `tv1` covers. -/
def span : Nat → Nat
  | 1 => 256
  | 2 => 16384
  | 3 => 1048576
  | _ => 67108864

/-- `c` is the next list of level `n` to be cascaded, counted from the start:
the one of tick `T` is done, or it is due at `T` and not done yet. -/
def Level (T n c : Nat) : Prop := c = T / span n + 1 ∨ (c = T / span n ∧ T % span n = 0)

/-- A timer for tick `E` may be on the list `i` of the wheel: on `tv1` for the
tick itself, or for the current tick when it is overdue; above, on the list
that is cascaded before the timer is due. -/
def Placed (T : Nat) (c : Nat → Nat) (E : Nat) (i : Nat × Nat) : Prop :=
  (i.1 = 0 ∧ ((T ≤ E ∧ E < T + 256 ∧ i.2 = E % 256) ∨ (E < T ∧ i.2 = T % 256))) ∨
  (1 ≤ i.1 ∧ i.1 ≤ 4 ∧ c i.1 ≤ E / span i.1 ∧ E / span i.1 < c i.1 + 64 ∧ i.2 = E / span i.1 % 64)

section Vec

variable {s : Timer} {c : Nat → Nat} {E : Nat}

/-- The differences that `InternalAddTimer` compares, without the wrap. -/
theorem sub32_cases {a b : Nat} (ha : a < 2147483648) (hb : b ≤ 2147483648) :
    (b ≤ a ∧ sub32 a b = a - b) ∨ (a < b ∧ 2147483648 ≤ sub32 a b) := by
  unfold sub32
  split <;> omega

/-- A timer that `InternalAddTimer` puts on a level above `tv1` is at least one
list of that level ahead, and less than a round. -/
theorem placed_above {T n e : Nat} (hn : 1 ≤ n ∧ n ≤ 4) (hl : Level T n (c n))
    (h1 : T + span n ≤ e) (h2 : e < T + span n * 64) :
    Placed T c e (n, e / span n % 64) := by
  refine .inr ⟨hn.1, hn.2, ?_, ?_, rfl⟩ <;>
  · obtain rfl | rfl | rfl | rfl : n = 1 ∨ n = 2 ∨ n = 3 ∨ n = 4 := by omega
    all_goals
      simp only [Level, span] at hl h1 h2 ⊢
      omega

theorem placed_vec (hT : s.uiCheckTime ≤ 2147483648) (hE : E < 2147483648)
    (h1 : s.tv1Index = s.uiCheckTime % 256)
    (hc : ∀ n, 1 ≤ n → n ≤ 4 → Level s.uiCheckTime n (c n)) :
    Placed s.uiCheckTime c E (s.vec E) := by
  unfold vec
  rcases sub32_cases hE hT with ⟨hle, he⟩ | ⟨hlt, he⟩
  · simp only [he]
    split
    · exact .inl ⟨rfl, .inl ⟨hle, by omega, rfl⟩⟩
    split
    · exact placed_above (by omega) (hc 1 (by omega) (by omega))
        (by simp only [span]; omega) (by simp only [span]; omega)
    split
    · exact placed_above (by omega) (hc 2 (by omega) (by omega))
        (by simp only [span]; omega) (by simp only [span]; omega)
    split
    · exact placed_above (by omega) (hc 3 (by omega) (by omega))
        (by simp only [span]; omega) (by simp only [span]; omega)
    split
    · omega
    · exact placed_above (by omega) (hc 4 (by omega) (by omega))
        (by simp only [span]; omega) (by simp only [span]; omega)
  · have h0 : Placed s.uiCheckTime c E (0, s.tv1Index) := .inl ⟨rfl, .inr ⟨hlt, h1⟩⟩
    simp [if_neg (show ¬ sub32 E s.uiCheckTime < 256 by omega),
      if_neg (show ¬ sub32 E s.uiCheckTime < 16384 by omega),
      if_neg (show ¬ sub32 E s.uiCheckTime < 1048576 by omega),
      if_neg (show ¬ sub32 E s.uiCheckTime < 67108864 by omega), if_pos he]
    exact h0

/-- A timer less than one list of level `n` ahead goes to a level below. -/
theorem vec_lt (hT : s.uiCheckTime ≤ 2147483648) (hE : E < 2147483648) {n : Nat}
    (hn : 1 ≤ n ∧ n ≤ 4) (h1 : s.uiCheckTime ≤ E) (h2 : E < s.uiCheckTime + span n) :
    (s.vec E).1 < n := by
  unfold vec
  rcases sub32_cases hE hT with ⟨hle, he⟩ | ⟨hlt, -⟩
  · simp only [he]
    obtain rfl | rfl | rfl | rfl : n = 1 ∨ n = 2 ∨ n = 3 ∨ n = 4 := by omega
    all_goals
      simp only [span] at h2
      split_ifs <;> simp <;> omega
  · omega

end Vec

/-! ## The wheel -/

def hd (i : Nat × Nat) : Ptr := .head i.1 i.2

/-- A timer that is set: it is found under its key, and its expire tick is the
tick of its expire time. -/
structure NodeOk (s : Timer) (n : Nat) : Prop where
  key : (s.node n).uiKey ≠ 0
  slot : n ∈ slots (s.node n).uiKey
  pid : (s.node n).dwProcessId = s.dwProcessId
  base : s.qwBaseTime ≤ (s.node n).qwExpireTime
  expire : (s.node n).uiExpire = ((s.node n).qwExpireTime - s.qwBaseTime) / checkInvlUs
  bound : (s.node n).uiExpire < 2147483648

/-- The wheel with the timers `A` on `lists`; the lists outside `on` are not
rings at the moment. -/
structure Inv (on : Nat × Nat → Prop) (s : Timer) (c : Nat → Nat) (lists : Nat × Nat → List Nat)
    (A : List Nat) : Prop where
  fam : Family on s.pstNext s.pstPrev hd fun i => (lists i).map Ptr.node
  nd : ∀ i, (lists i).Nodup
  uniq : ∀ i j n, n ∈ lists i → n ∈ lists j → i = j
  mem : ∀ n, n ∈ A ↔ ∃ i, n ∈ lists i
  nodup : A.Nodup
  placed : ∀ i n, n ∈ lists i → Placed s.uiCheckTime c (s.node n).uiExpire i
  node : ∀ n ∈ A, NodeOk s n
  count : s.uiCount = A.length
  tv1 : s.tv1Index = s.uiCheckTime % 256
  index : ∀ n, 1 ≤ n → n ≤ 4 → s.tvIndex n = c n % 64
  level : ∀ n, 1 ≤ n → n ≤ 4 → Level s.uiCheckTime n (c n)
  time : s.uiCheckTime ≤ 2147483648
  clock : s.qwBaseTime ≤ s.qwCurTime

/-- `s'` has the wheel and the timers `A` of `s`, at the same or a later time. -/
structure Frame (A : List Nat) (s s' : Timer) : Prop where
  next : s'.pstNext = s.pstNext
  prev : s'.pstPrev = s.pstPrev
  tv1 : s'.tv1Index = s.tv1Index
  index : s'.tvIndex = s.tvIndex
  base : s'.qwBaseTime = s.qwBaseTime
  check : s'.uiCheckTime = s.uiCheckTime
  count : s'.uiCount = s.uiCount
  pid : s'.dwProcessId = s.dwProcessId
  clock : s.qwCurTime ≤ s'.qwCurTime
  node : ∀ n ∈ A, s'.node n = s.node n

/-- `s'` has everything of `s` but the links and the level indexes. -/
structure SameTimers (s s' : Timer) : Prop where
  node : s'.node = s.node
  tv1 : s'.tv1Index = s.tv1Index
  base : s'.qwBaseTime = s.qwBaseTime
  check : s'.uiCheckTime = s.uiCheckTime
  count : s'.uiCount = s.uiCount
  pid : s'.dwProcessId = s.dwProcessId
  cur : s'.qwCurTime = s.qwCurTime
  active : s'.active = s.active
  given : s'.given = s.given

theorem SameTimers.refl (s : Timer) : SameTimers s s :=
  ⟨rfl, rfl, rfl, rfl, rfl, rfl, rfl, rfl, rfl⟩

theorem SameTimers.trans {s s' s'' : Timer} (h : SameTimers s s') (h' : SameTimers s' s'') :
    SameTimers s s'' :=
  ⟨h'.node.trans h.node, h'.tv1.trans h.tv1, h'.base.trans h.base, h'.check.trans h.check,
    h'.count.trans h.count, h'.pid.trans h.pid, h'.cur.trans h.cur, h'.active.trans h.active,
    h'.given.trans h.given⟩

theorem Frame.setNode {A : List Nat} {n : Nat} (s : Timer) (hn : n ∉ A) (nd : TimerNode) :
    Frame A s (s.setNode n nd) := by
  refine ⟨rfl, rfl, rfl, rfl, rfl, rfl, rfl, rfl, le_refl _, fun m hm => ?_⟩
  refine update_of_ne ?_ _ _
  rintro rfl
  exact hn hm

section

variable {on : Nat × Nat → Prop} {s s' : Timer} {c : Nat → Nat} {lists : Nat × Nat → List Nat}
  {A : List Nat} {n : Nat}

theorem NodeOk.congr (h : NodeOk s n) (hn : s'.node n = s.node n)
    (hb : s'.qwBaseTime = s.qwBaseTime) (hp : s'.dwProcessId = s.dwProcessId) : NodeOk s' n := by
  obtain ⟨h1, h2, h3, h4, h5, h6⟩ := h
  constructor <;> simp only [hn, hb, hp] <;> assumption

theorem Inv.frame (h : Inv on s c lists A) (hf : Frame A s s') : Inv on s' c lists A where
  fam := by rw [hf.next, hf.prev]; exact h.fam
  nd := h.nd
  uniq := h.uniq
  mem := h.mem
  nodup := h.nodup
  placed i n hn := by
    rw [hf.check, hf.node n ((h.mem n).mpr ⟨i, hn⟩)]
    exact h.placed i n hn
  node n hn := (h.node n hn).congr (hf.node n hn) hf.base hf.pid
  count := hf.count.trans h.count
  tv1 := by rw [hf.tv1, hf.check]; exact h.tv1
  index n h1 h4 := by rw [hf.index]; exact h.index n h1 h4
  level n h1 h4 := by rw [hf.check]; exact h.level n h1 h4
  time := by rw [hf.check]; exact h.time
  clock := by rw [hf.base]; exact le_trans h.clock hf.clock

theorem Timer.slots_lt {key : Nat} (h : n ∈ slots key) : n < hashRows * hashCols := by
  obtain ⟨i, hi, rfl⟩ := mem_map.mp h
  rw [mem_range] at hi
  simp only [hashCols] at *
  omega

theorem Inv.length_le (h : Inv on s c lists A) : A.length ≤ hashRows * hashCols := by
  have hsub : A ⊆ List.range (hashRows * hashCols) := fun n hn =>
    mem_range.mpr (slots_lt (h.node n hn).slot)
  simpa using (h.nodup.subperm hsub).length_le

/-! ## Searching -/

namespace Timer

/-- The key of a node as `TimerHashCmpFun` sees it. -/
def keyNow (s : Timer) (n : Nat) : Nat := (s.prune (s.node n)).uiKey

/-- The state after a look at the nodes `ns`: those that are stale lost their key. -/
def looks (s : Timer) (ns : List Nat) : Timer :=
  { s with node := fun m => if m ∈ ns then s.prune (s.node m) else s.node m }

theorem prune_prune (s : Timer) (nd : TimerNode) : s.prune (s.prune nd) = s.prune nd := by
  unfold prune
  split_ifs <;> rfl

theorem looks_nil (s : Timer) : s.looks [] = s := by simp [looks]

theorem timerHashCmp_eq (s : Timer) (key n : Nat) :
    s.timerHashCmp key n = (s.looks [n], decide (key = s.keyNow n)) := by
  refine Prod.ext ?_ rfl
  simp only [timerHashCmp, setNode, looks, mem_singleton]
  congr 1
  funext m
  by_cases hm : m = n
  · subst hm
    rw [update_self, if_pos rfl]
  · rw [update_of_ne hm, if_neg hm]

theorem looks_looks (s : Timer) (ms ns : List Nat) : (s.looks ms).looks ns = s.looks (ms ++ ns) := by
  have hp : (s.looks ms).prune = s.prune := rfl
  simp only [looks]
  congr 1
  funext m
  by_cases hm : m ∈ ms <;> by_cases hn : m ∈ ns <;> simp [hm, ← looks.eq_def, hp, prune_prune]

theorem keyNow_looks (s : Timer) (ns : List Nat) : (s.looks ns).keyNow = s.keyNow := by
  have hp : (s.looks ns).prune = s.prune := rfl
  funext m
  simp only [keyNow, hp]
  simp only [looks]
  split
  · rw [prune_prune]
  · rfl

variable {ns : List Nat} {key : Nat}

theorem uiKey_looks (s : Timer) (hn : n ∈ ns) : ((s.looks ns).node n).uiKey = s.keyNow n := by
  simp [looks, hn, keyNow]

theorem uiExpire_looks (s : Timer) (ns : List Nat) (m : Nat) :
    ((s.looks ns).node m).uiExpire = (s.node m).uiExpire := by
  simp only [looks, prune]
  split_ifs <;> rfl

/-- The nodes that a search for `key` looks at, when the nodes have the keys `f`. -/
def seen (f : Nat → Nat) (key : Nat) : List Nat → List Nat
  | [] => []
  | n :: ns => if key = f n then [n] else n :: seen f key ns

theorem seen_of_none {f : Nat → Nat} (h : ns.find? (fun n => key = f n) = none) :
    seen f key ns = ns := by
  induction ns with
  | nil => rfl
  | cons n ns ih =>
    rw [find?_cons] at h
    split at h
    case h_1 => cases h
    case h_2 hn => rw [seen, if_neg (of_decide_eq_false hn), ih h]

/-- A search finds the first node that has the key. -/
theorem hashTableSearch_eq (key : Nat) (ns : List Nat) : ∀ s, hashTableSearch key ns s =
      (s.looks (seen s.keyNow key ns), ns.find? fun n => key = s.keyNow n) := by
  induction ns with
  | nil =>
    intro s
    exact Prod.ext s.looks_nil.symm rfl
  | cons n ns ih =>
    intro s
    rw [hashTableSearch, timerHashCmp_eq, seen, find?_cons]
    by_cases hk : key = s.keyNow n
    · simp [hk]
    · simp only [hk, decide_false]
      rw [ih, keyNow_looks, looks_looks]
      rfl

/-- A search for a free node: the first one that has the key, or else the first
without a key. -/
theorem hashTableSearchEx_eq (key : Nat) (ns : List Nat) : ∀ e s,
    hashTableSearchEx key ns e s = (s.looks (seen s.keyNow key ns),
      match ns.find? fun n => key = s.keyNow n with
      | some n => (some n, true)
      | none => (e.or (ns.find? fun n => 0 = s.keyNow n), false)) := by
  induction ns with
  | nil =>
    simp [hashTableSearchEx, seen, looks_nil]
  | cons n ns ih =>
    intro e s
    -- a second look at the node changes nothing
    have htwice : (s.looks [n]).looks [n] = s.looks [n] := by
      rw [looks_looks]
      simp [looks]
    rw [hashTableSearchEx, timerHashCmp_eq, seen, find?_cons, find?_cons]
    by_cases hk : key = s.keyNow n
    · simp [hk]
    simp only [hk, decide_false]
    cases e with
    | some e =>
      simp only [ih, keyNow_looks, looks_looks]
      rfl
    | none =>
      simp only [timerHashCmp_eq, htwice]
      by_cases h0 : 0 = s.keyNow n
      · simp only [h0, decide_true, ih, keyNow_looks, looks_looks]
        rfl
      · simp only [h0, decide_false, ih, keyNow_looks, looks_looks]
        rfl

theorem keyNow_cases (s : Timer) (n : Nat) : s.keyNow n = (s.node n).uiKey ∨ s.keyNow n = 0 := by
  unfold keyNow prune
  split
  · exact .inr rfl
  · exact .inl rfl

/-- The node that a search for a free one comes back with; there is none for the key 0. -/
theorem free_of_find (hnone : ns.find? (fun n => key = s.keyNow n) = none)
    (hsome : ns.find? (fun n => 0 = s.keyNow n) = some n) : n ∈ ns ∧ s.keyNow n = 0 ∧ key ≠ 0 := by
  refine ⟨mem_of_find?_eq_some hsome, ?_, ?_⟩
  · have h0 := find?_some hsome
    exact (of_decide_eq_true h0).symm
  · rintro rfl
    rw [hnone] at hsome
    cases hsome

end Timer

/-- No timer of `A` is stale to `TimerHashCmpFun`. -/
def Clean (A : List Nat) (s : Timer) : Prop :=
  ∀ n ∈ A, (s.node n).dwProcessId = s.dwProcessId ∧ s.qwCurTime ≤ (s.node n).qwExpireTime + staleUs

/-- A search leaves the timers that are not stale as they are. -/
theorem Clean.looks (h : Clean A s) (ns : List Nat) : Frame A s (s.looks ns) := by
  refine ⟨rfl, rfl, rfl, rfl, rfl, rfl, rfl, rfl, le_refl _, fun n hn => ?_⟩
  have hkeep : s.prune (s.node n) = s.node n := by
    obtain ⟨hpid, hle⟩ := h n hn
    rw [prune, if_neg]
    rw [not_or, Decidable.not_not, not_lt]
    exact ⟨hpid, hle⟩
  simp [Timer.looks, hkeep]

/-! ## Linking and unlinking -/

theorem hd_ne_node (i : Nat × Nat) (n : Nat) : hd i ≠ .node n := by
  simp [hd]

variable {i j : Nat × Nat}

theorem hd_inj (h : hd i = hd j) : i = j := by
  simpa [hd, Prod.ext_iff] using h

theorem mem_ring_node {l : List Nat} : Ptr.node n ∈ hd i :: l.map Ptr.node ↔ n ∈ l := by
  simp [(hd_ne_node i n).symm]

theorem internalAddTimer_next (s : Timer) (n : Nat) : (s.internalAddTimer n).pstNext =
    update (update s.pstNext (.node n) (s.pstNext (s.pstPrev (hd (s.vec (s.node n).uiExpire)))))
      (s.pstPrev (hd (s.vec (s.node n).uiExpire))) (.node n) := rfl

theorem internalAddTimer_prev (s : Timer) (n : Nat) : (s.internalAddTimer n).pstPrev =
    update (update s.pstPrev (s.pstNext (s.pstPrev (hd (s.vec (s.node n).uiExpire)))) (.node n))
      (.node n) (s.pstPrev (hd (s.vec (s.node n).uiExpire))) := rfl

/-- `InternalAddTimer` puts the node at the end of the list it chooses. -/
theorem fam_internalAddTimer {lists' : Nat × Nat → List Nat}
    (hf : Family on s.pstNext s.pstPrev hd fun i => (lists i).map Ptr.node)
    (hv : s.vec (s.node n).uiExpire = j) (hj : on j)
    (hn : ∀ i, on i → n ∉ lists i) (hl : lists' j = lists j ++ [n])
    (hl' : ∀ i, on i → i ≠ j → lists' i = lists i) :
    Family on (s.internalAddTimer n).pstNext (s.internalAddTimer n).pstPrev hd
      fun i => (lists' i).map Ptr.node := by
  have hr := hf.ring j hj
  have hlast : Ptr.node n ≠ s.pstPrev (hd j) := fun he =>
    hn j hj (mem_ring_node.mp (he ▸ hr.prev_mem mem_cons_self))
  have hback : s.pstNext (s.pstPrev (hd j)) = hd j := hr.next_prev mem_cons_self
  rw [internalAddTimer_next, internalAddTimer_prev, hv, hback]
  refine hf.insert_last hj (fun i hi hm => hn i hi (mem_ring_node.mp hm))
    (update_self ..) (update_self ..) ?_ ?_ (fun y h1 h2 => ?_)
    (fun y h1 h2 => ?_) ?_ fun i hi hij => ?_
  · rw [update_of_ne hlast, update_self]
  · rw [update_of_ne (hd_ne_node j n), update_self]
  · rw [update_of_ne h1, update_of_ne h2]
  · rw [update_of_ne h2, update_of_ne h1]
  · simp [hl]
  · simp [hl' i hi hij]

theorem frame_internalAddTimer (s : Timer) (n : Nat) : (s.internalAddTimer n).node = update s.node n
      { s.node n with dwProcessId := s.dwProcessId } ∧
    (s.internalAddTimer n).tv1Index = s.tv1Index ∧
    (s.internalAddTimer n).tvIndex = s.tvIndex ∧
    (s.internalAddTimer n).qwBaseTime = s.qwBaseTime ∧
    (s.internalAddTimer n).uiCheckTime = s.uiCheckTime ∧
    (s.internalAddTimer n).dwProcessId = s.dwProcessId :=
  ⟨rfl, rfl, rfl, rfl, rfl, rfl⟩

/-- A timer for tick `E` put on the list of its place. -/
def addTo (lists : Nat × Nat → List Nat) (j : Nat × Nat) (n : Nat) : Nat × Nat → List Nat :=
  update lists j (lists j ++ [n])

theorem mem_addTo {m : Nat} : m ∈ addTo lists j n i ↔ m ∈ lists i ∨ (i = j ∧ m = n) := by
  by_cases h : i = j
  · subst h
    simp [addTo]
  · simp [addTo, h]

theorem nodup_addTo (hnd : (lists i).Nodup) (hn : n ∉ lists i) (j : Nat × Nat) :
    (addTo lists j n i).Nodup := by
  by_cases h : i = j
  · subst h
    rw [addTo, update_self]
    exact (perm_append_singleton n (lists i)).nodup_iff.mpr (nodup_cons.mpr ⟨hn, hnd⟩)
  · rw [addTo, update_of_ne h]
    exact hnd

/-- A node that is ready to be linked. -/
structure Ready (s : Timer) (n : Nat) : Prop where
  key : (s.node n).uiKey ≠ 0
  slot : n ∈ slots (s.node n).uiKey
  base : s.qwBaseTime ≤ (s.node n).qwExpireTime
  expire : (s.node n).uiExpire = ((s.node n).qwExpireTime - s.qwBaseTime) / checkInvlUs
  bound : (s.node n).uiExpire < 2147483648

theorem inc32_eq {a : Nat} (h : a < 4294967295) : inc32 a = a + 1 := by
  unfold inc32
  split
  · omega
  · rfl

variable (h : Inv (fun _ => True) s c lists A)
include h

theorem Inv.add (hn : n ∉ A) (hr : Ready s n)
    {s' : Timer} (hs : Frame (n :: A) { s.internalAddTimer n with uiCount := inc32 s.uiCount } s') :
    ∃ lists', Inv (fun _ => True) s' c lists' (n :: A) := by
  obtain ⟨hnode, htv1, hidx, hbase, hcheck, hpid⟩ := frame_internalAddTimer s n
  have hnl : ∀ i, n ∉ lists i := fun i hi => hn ((h.mem n).mpr ⟨i, hi⟩)
  have hold : ∀ m ∈ A, (s.internalAddTimer n).node m = s.node m := fun m hm => by
    refine update_of_ne ?_ _ _
    rintro rfl
    exact hn hm
  have hself : (s.internalAddTimer n).node n = { s.node n with dwProcessId := s.dwProcessId } := by
    rw [hnode, update_self]
  have hplace := placed_vec h.time hr.bound h.tv1 h.level
  have hsmall : A.length < 4294967295 := lt_of_le_of_lt h.length_le (by decide)
  refine ⟨addTo lists (s.vec (s.node n).uiExpire) n, Inv.frame ?_ hs⟩
  exact { h with
    fam := fam_internalAddTimer h.fam rfl trivial (fun i _ => hnl i) (update_self ..)
      fun i _ hij => update_of_ne hij ..
    nd := fun i => nodup_addTo (h.nd i) (hnl i) _
    uniq := fun i j m hi hj => by
      rcases mem_addTo.mp hi with hi | ⟨hi, him⟩ <;> rcases mem_addTo.mp hj with hj | ⟨hj, hjm⟩
      · exact h.uniq i j m hi hj
      · exact absurd (hjm ▸ hi) (hnl i)
      · exact absurd (him ▸ hj) (hnl j)
      · exact hi.trans hj.symm
    mem := fun m => by
      simp only [mem_cons, h.mem, mem_addTo]
      constructor
      · rintro (rfl | ⟨i, hi⟩)
        · exact ⟨_, .inr ⟨rfl, rfl⟩⟩
        · exact ⟨i, .inl hi⟩
      · rintro ⟨i, hi | ⟨-, rfl⟩⟩
        · exact .inr ⟨i, hi⟩
        · exact .inl rfl
    nodup := nodup_cons.mpr ⟨hn, h.nodup⟩
    placed := fun i m hm => by
      rcases mem_addTo.mp hm with hm | ⟨rfl, rfl⟩
      · have hmA := (h.mem m).mpr ⟨i, hm⟩
        rw [hold m hmA]
        exact h.placed i m hm
      · rw [hself]
        exact hplace
    node := fun m hm => by
      rcases mem_cons.mp hm with rfl | hm
      · refine ⟨?_, ?_, ?_, ?_, ?_, ?_⟩ <;>
          simp [hself, hpid]
        · exact hr.key
        · exact hr.slot
        · exact hr.base
        · exact hr.expire
        · exact hr.bound
      · exact (h.node m hm).congr (hold m hm) hbase hpid
    count := by
      rw [length_cons, ← h.count]
      exact inc32_eq (h.count ▸ hsmall) }

/-- The clock is read at most 2^31 ticks after `InitTimer`, with room for the
longest timeout. -/
def InTime (s : Timer) (now : Nat) : Prop :=
  s.qwBaseTime ≤ now ∧ now - s.qwBaseTime + 4294967296 ≤ 214748364800000

/-- Setting a timer: `AddTimer` on a free node and `UpdateTimer` on a fired one. -/
theorem Inv.arm (hn : n ∉ A) (hk : (s.node n).uiKey ≠ 0)
    (hs : n ∈ slots (s.node n).uiKey) (ht : InTime s s.qwCurTime) :
    ∃ lists', Inv (fun _ => True) (s.arm n) c lists' (n :: A) := by
  have hus : ∀ ms, timeMsToUs ms < 4294967296 := fun ms => Nat.mod_lt _ (by decide)
  -- the node with its expire time, before it is linked
  obtain ⟨nd, us, hnd, hu, he, hq, hkey⟩ : ∃ nd us, s.arm n =
      (let s1 := (s.setNode n nd).internalAddTimer n
       { s1 with
         uiCount := inc32 s1.uiCount
         uiMaxCount := if s1.uiMaxCount < inc32 s1.uiCount then inc32 s1.uiCount else s1.uiMaxCount
         active := n :: s1.active }) ∧ us < 4294967296 ∧
      nd.uiExpire = u32 ((s.qwCurTime - s.qwBaseTime + us) / checkInvlUs) ∧
      nd.qwExpireTime = us + s.qwCurTime ∧ nd.uiKey = (s.node n).uiKey :=
    ⟨_, _, rfl, hus _, rfl, rfl, rfl⟩
  rw [hnd]
  obtain ⟨hb, hb'⟩ := ht
  have hlt : (s.qwCurTime - s.qwBaseTime + us) / checkInvlUs < 2147483648 := by
    rw [checkInvlUs]
    omega
  have hu32 : u32 ((s.qwCurTime - s.qwBaseTime + us) / checkInvlUs) =
      (s.qwCurTime - s.qwBaseTime + us) / checkInvlUs := Nat.mod_eq_of_lt (by omega)
  have hself : (s.setNode n nd).node n = nd := update_self ..
  refine (h.frame (Frame.setNode s hn nd)).add hn ?_
    ⟨rfl, rfl, rfl, rfl, rfl, rfl, rfl, rfl, le_refl _, fun _ _ => rfl⟩
  refine ⟨?_, ?_, ?_, ?_, ?_⟩ <;> rw [hself]
  · rw [hkey]; exact hk
  · rw [hkey]; exact hs
  · rw [hq]; exact le_trans hb (Nat.le_add_left _ _)
  · rw [he, hq, hu32]
    congr 1
    show _ = us + s.qwCurTime - s.qwBaseTime
    omega
  · rw [he, hu32]; exact hlt

theorem Inv.del (hn : n ∈ A) : ∃ s1, s.listDel (.node n) = some s1 ∧ SameTimers s s1 ∧
      Inv (fun _ => True) { s1 with uiCount := dec32 s1.uiCount } c
        (fun i => (lists i).erase n) (A.erase n) := by
  obtain ⟨j, hj⟩ := (h.mem n).mp hn
  have hr := h.fam.ring j trivial
  have hcell : Ptr.node n ∈ hd j :: (lists j).map Ptr.node := mem_ring_node.mpr hj
  -- both neighbours are cells of the ring
  have hnull : ∀ p ∈ hd j :: (lists j).map Ptr.node, p ≠ .null := by
    intro p hp
    rcases mem_cons.mp hp with rfl | hp
    · simp [hd]
    · obtain ⟨m, -, rfl⟩ := mem_map.mp hp
      simp
  have hsome : ¬ (s.pstPrev (.node n) = .null ∨ s.pstNext (.node n) = .null) := by
    rw [not_or]
    exact ⟨hnull _ (hr.prev_mem hcell), hnull _ (hr.next_mem hcell)⟩
  obtain ⟨l1, l2, hl⟩ := append_of_mem hj
  have hnot : n ∉ l1 := by
    have := h.nd j
    rw [hl] at this
    exact fun hm => (nodup_append.mp this).2.2 n hm n mem_cons_self rfl
  have herase : (lists j).erase n = l1 ++ l2 := by
    rw [hl, erase_append_right _ hnot, erase_cons_head]
  have hsplit : (lists j).map Ptr.node = l1.map Ptr.node ++ .node n :: l2.map Ptr.node := by
    rw [hl, map_append, map_cons]
  have hother : ∀ i, i ≠ j → (lists i).erase n = lists i := fun i hi =>
    erase_of_not_mem fun hm => hi (h.uniq i j n hm hj)
  have hmem : ∀ i m, m ∈ (lists i).erase n ↔ m ≠ n ∧ m ∈ lists i := fun i m =>
    (h.nd i).mem_erase_iff
  refine ⟨_, if_neg hsome, ⟨rfl, rfl, rfl, rfl, rfl, rfl, rfl, rfl, rfl⟩, ?_⟩
  exact { h with
    fam := h.fam.unlink trivial hsplit (update_self ..) (update_self ..)
      (fun y hy => update_of_ne hy ..) (fun y hy => update_of_ne hy ..)
      ((congrArg _ herase).trans (map_append ..)) fun i hi => congrArg _ (hother i hi)
    nd := fun i => (h.nd i).erase n
    uniq := fun i k m hi hk => h.uniq i k m (mem_of_mem_erase hi) (mem_of_mem_erase hk)
    mem := fun m => by
      rw [h.nodup.mem_erase_iff, h.mem]
      simp only [hmem]
      exact ⟨fun ⟨h1, i, h2⟩ => ⟨i, h1, h2⟩, fun ⟨i, h1, h2⟩ => ⟨h1, i, h2⟩⟩
    nodup := h.nodup.erase n
    placed := fun i m hm => h.placed i m (mem_of_mem_erase hm)
    node := fun m hm => (h.node m (mem_of_mem_erase hm)).congr rfl rfl rfl
    count := by
      obtain ⟨k, hk⟩ : ∃ k, A.length = k + 1 := ⟨A.length - 1, by
        have := length_pos_of_mem hn
        omega⟩
      rw [h.count, length_erase_of_mem hn, hk]
      rfl }

end

end DesPwd.L2.TimerWheel
