import DesPwd.Core.Run
import DesPwd.L2Machine.TimerWheelCall

/-!
# The timer wheel: runs

* `wheel_keeps_timers`: in a run of `AddTimer`, `GetTimer` and `CheckTimer`
  calls whose steps meet `Ok`, every timer that was set and neither taken nor
  fired is on exactly one list of the wheel.
* `lookup_only_armed`: in such a run `GetTimer` finds only timers that are set;
  `lookup_free_node` finds a free node, with the key 0 or with a key that a node
  still has after it was taken.
* `wheel_loses_timer`: a `CheckTimer` that leaves a tick early leaves
  `uiCheckTime` and `tv1.index` as they are, so the next call cascades once
  more; at a multiple of 256 it relinks the timers of the next list into the
  list that it walks, and then empties it.
-/
namespace DesPwd.L2.TimerWheel

open Rings Run List Timer

/-! ## The property -/

/-- The lists of `tv1` to `tv5`. -/
def InWheel (i : Nat × Nat) : Prop := (i.1 = 0 ∧ i.2 < tvrSize) ∨ (1 ≤ i.1 ∧ i.1 ≤ 4 ∧ i.2 < tvnSize)

/-- Following the links from the head of list `i` and back leads through the
node `n`. -/
def OnList (s : Timer) (n : Nat) (i : Nat × Nat) : Prop :=
  ∃ l, IsRing s.pstNext s.pstPrev (hd i) l ∧ Ptr.node n ∈ l

/-- Every timer that was set and neither taken nor fired is on exactly one list. -/
def KeepsTimers (s : Timer) : Prop := ∀ n ∈ s.active, ∃! i, InWheel i ∧ OnList s n i

/-! ## The condition -/

/-- A call that ends at `tEnd` takes at most five minutes from the last clock
reading before it, no timer on the wheel is more than five minutes overdue by
then, and `InitTimer` was less than 2^31 ticks ago. -/
def Timely (s : Timer) (tEnd : Nat) : Prop :=
  tEnd ≤ s.qwCurTime + staleUs ∧ InTime s tEnd ∧
    ∀ n ∈ s.active, tEnd ≤ (s.node n).qwExpireTime + staleUs

/-- The wheel stands at a multiple of 256 whose cascade has been done. -/
def Reentered (s : Timer) : Prop := s.tv1Index = 0 ∧ s.tvIndex 1 ≠ s.uiCheckTime / 256 % 64

instance (s : Timer) : Decidable (Reentered s) := inferInstanceAs (Decidable (_ ∧ _))

/-- What a step asks of the state it starts in and of its arguments. -/
def Ok (s : Timer) : Label → Prop
  | .setCurTime now => s.qwCurTime ≤ now
  | .addTimer a => s.qwCurTime ≤ a.now ∧ Timely s a.now
  -- the key is not 0, and no node that `GetTimer` gave out still has it
  | .getTimer uiKey => uiKey ≠ 0 ∧ Timely s s.qwCurTime ∧
      ∀ n ∈ s.given, (s.node n).uiKey = uiKey → n ∈ s.active
  | .release n => n ∉ s.active
  -- nothing is asked of a wheel without timers
  | .checkTimer cbs tEnd => s.uiCount = 0 ∨ Mono tEnd s.qwCurTime (cbTimes cbs) ∧ Timely s tEnd ∧
      s.active.length + cbAdds cbs ≤ cascadeLimit ∧ ¬ Reentered s

/-! ## Steps and runs -/

/-- The wheel between two calls. -/
structure WheelInv (s : Timer) : Prop where
  inv : ∃ c lists, Inv (fun _ => True) s c lists s.active ∧
    (Cascaded s.uiCheckTime 1 c ∨ Done s.uiCheckTime c)
  keyed : Keyed [] s

theorem inv_init (now pid : Nat) :
    Inv (fun _ => True) (initTimer now pid) (fun _ => 0) (fun _ => []) [] ∧
      Cascaded 0 1 fun _ => 0 := by
  have hring : ∀ i, IsRing (initTimer now pid).pstNext (initTimer now pid).pstPrev (hd i) [] :=
    fun i => IsRing.nil_iff.mpr ⟨rfl, rfl⟩
  refine ⟨?_, fun n _ _ => ⟨fun h => by omega, fun _ => ?_⟩⟩
  · exact
    { fam := ⟨fun i _ => hring i, fun i j x _ _ hi hj =>
        hd_inj ((mem_singleton.mp hi).symm.trans (mem_singleton.mp hj))⟩
      nd := fun _ => nodup_nil
      uniq := fun _ _ _ h => by cases h
      mem := fun _ => ⟨fun h => (by cases h), fun ⟨_, h⟩ => (by cases h)⟩
      nodup := nodup_nil
      placed := fun _ _ h => by cases h
      node := fun _ h => by cases h
      count := rfl
      tv1 := rfl
      index := fun _ _ _ => rfl
      level := fun n _ _ => .inr ⟨(Nat.zero_div _).symm, Nat.zero_mod _⟩
      time := Nat.zero_le _
      clock := le_refl _ }
  · simp

theorem keyed_init (now pid : Nat) : Keyed [] (initTimer now pid) := fun _ h => absurd rfl h

theorem wheelInv_init (now pid : Nat) : WheelInv (initTimer now pid) :=
  ⟨⟨_, _, (inv_init now pid).1, .inl (inv_init now pid).2⟩, keyed_init now pid⟩

variable {s : Timer} {c : Nat → Nat}

theorem WheelInv.keepsTimers (h : WheelInv s) : KeepsTimers s := by
  obtain ⟨c, lists, hi, -⟩ := h.inv
  intro n hn
  obtain ⟨i, hni⟩ := (hi.mem n).mp hn
  refine ⟨i, ⟨?_, _, hi.fam.ring i trivial, mem_map_of_mem hni⟩, fun j ⟨_, l, hl, hj⟩ => ?_⟩
  · rcases hi.placed i n hni with ⟨h0, ⟨-, -, h2⟩ | ⟨-, h2⟩⟩ | ⟨h1, h4, -, -, h2⟩
    · exact .inl ⟨h0, by rw [tvrSize]; omega⟩
    · exact .inl ⟨h0, by rw [tvrSize]; omega⟩
    · exact .inr ⟨h1, h4, by rw [tvnSize]; omega⟩
  · rw [hl.unique (hi.fam.ring j trivial)] at hj
    obtain ⟨m, hm, he⟩ := mem_map.mp hj
    cases he
    exact hi.uniq j i n hm hni

/-- The state at the start of a call that ends by `tEnd`. -/
theorem live_of_timely {lists : Nat × Nat → List Nat} {tEnd : Nat}
    (hi : Inv (fun _ => True) s c lists s.active) (ht : Timely s tEnd) (hle : s.qwCurTime ≤ tEnd) :
    Live s.qwBaseTime s.qwCurTime tEnd s.uiCheckTime c [] s.active s where
  inv := ⟨lists, hi⟩
  disj _ h := by cases h
  held n hn := ⟨(hi.node n hn).key, (hi.node n hn).slot, (hi.node n hn).pid, ht.2.2 n hn⟩
  active := rfl
  since := le_refl _
  cur := hle
  recent := ht.1
  time := ht.2.1
  tick := rfl
  base := rfl

theorem wheelInv_of_live {b t M T : Nat} {A : List Nat} (h : Live b t M T c [] A s)
    (hk : Keyed [] s) (hc : Cascaded T 1 c ∨ Done T c) : WheelInv s := by
  obtain ⟨lists, hi⟩ := h.inv
  obtain rfl := h.active
  obtain rfl := h.tick
  exact ⟨⟨c, lists, hi, hc⟩, hk⟩

/-- `GetTimer` takes the timer of the node `n`: it was set with that key, and every
list is as before without the node. -/
structure Taken (s s' : Timer) (uiKey n : Nat) : Prop where
  armed : n ∈ s.active
  key : (s.node n).uiKey = uiKey
  active : s'.active = s.active.erase n
  lists : ∀ i l, IsRing s.pstNext s.pstPrev (hd i) l →
    IsRing s'.pstNext s'.pstPrev (hd i) (l.erase (.node n))

/-- From `s` to `s'` the wheel stands still, and no timer is new. -/
structure Shrinks (c : Nat → Nat) (s s' : Timer) : Prop where
  inv : ∃ lists, Inv (fun _ => True) s' c lists s'.active
  keyed : Keyed [] s'
  check : s'.uiCheckTime = s.uiCheckTime
  base : s'.qwBaseTime = s.qwBaseTime
  cur : s'.qwCurTime = s.qwCurTime
  active : ∀ m ∈ s'.active, m ∈ s.active ∧ (s'.node m).uiExpire = (s.node m).uiExpire

theorem Inv.getTimer {lists : Nat × Nat → List Nat}
    (hi : Inv (fun _ => True) s c lists s.active) (hkeyed : Keyed [] s) {uiKey : Nat}
    (hok : Ok s (.getTimer uiKey)) :
    ∃ s' r, s.getTimer uiKey = some (s', r) ∧ Shrinks c s s' ∧
      (r = ⟨none, [], -2⟩ ∨ ∃ n, r.pNode = some n ∧ Taken s s' uiKey n) := by
  obtain ⟨hk, ht, hgiven⟩ := hok
  have hlive := live_of_timely hi ht (le_refl _)
  rw [Timer.getTimer, Timer.hashTableSearch_eq]
  generalize seen s.keyNow uiKey (slots uiKey) = ms
  have hi1 : Inv (fun _ => True) (s.looks ms) c lists s.active := hi.frame (hlive.clean.looks ms)
  cases hfind : (slots uiKey).find? fun n => uiKey = s.keyNow n with
  | none =>
    exact ⟨_, _, rfl, ⟨⟨lists, hi1⟩, hkeyed.looks ms, rfl, rfl, rfl,
      fun m hm => ⟨hm, s.uiExpire_looks ms m⟩⟩, .inl rfl⟩
  | some n =>
    -- the node that is found has the key, so it is on the wheel or was given out
    have hkey : (s.node n).uiKey = uiKey := by
      have hnow := find?_some hfind
      rw [decide_eq_true_iff] at hnow
      rcases s.keyNow_cases n with he | he
      · exact he.symm.trans hnow.symm
      · omega
    have hnA : n ∈ s.active := by
      rcases hkeyed n (hkey ▸ hk) with hz | ha | hg
      · cases hz
      · exact ha
      · exact hgiven n hg hkey
    obtain ⟨s2, hdel, hsame, hi2⟩ := hi1.del hnA
    have hne : ∀ m ∈ s.active.erase n, m ≠ n := fun m hm => (hi1.nodup.mem_erase_iff.mp hm).1
    have hactive : s2.active = s.active := hsame.active
    simp only [hdel]
    have hkeyed2 : Keyed [] s2 := (hkeyed.looks ms).of_key (fun m => .inl (by rw [hsame.node]))
      hsame.active hsame.given
    refine ⟨_, _, rfl, ⟨⟨fun i => (lists i).erase n, ?_⟩, fun m hm => ?_, hsame.check, hsame.base,
      hsame.cur, fun m hm => ?_⟩, .inr ⟨n, rfl, hnA, hkey, congrArg (·.erase n) hactive, fun i l hl => ?_⟩⟩
    · rw [hactive]
      exact hi2.frame ⟨rfl, rfl, rfl, rfl, rfl, rfl, rfl, rfl, le_refl _, fun m hm =>
        setNode_of_ne _ (hne m hm) _⟩
    · have hset : Keyed [n] ({ s2 with active := s2.active.erase n }.setNode n
          { s2.node n with pDataPtr := none }) := hkeyed2.erase.setFields (.inl rfl)
      rcases hset m hm with hz | ha | hg
      · exact .inr (.inr (mem_singleton.mp hz ▸ mem_cons_self))
      · exact .inr (.inl ha)
      · exact .inr (.inr (mem_cons_of_mem _ hg))
    · have hm1 : m ∈ s.active.erase n := hactive ▸ hm
      refine ⟨mem_of_mem_erase hm1, ?_⟩
      rw [setNode_of_ne _ (hne m hm1), hsame.node]
      exact s.uiExpire_looks ms m
    · have hring := hi2.fam.ring i trivial
      rw [hl.unique (hi.fam.ring i trivial)]
      rw [map_erase fun _ _ => Ptr.node.inj] at hring
      exact hring

theorem WheelInv.getTimer (h : WheelInv s) {uiKey : Nat} (hok : Ok s (.getTimer uiKey)) :
    ∃ s', s.step (.getTimer uiKey) = some s' ∧ WheelInv s' := by
  obtain ⟨c, lists, hi, hc⟩ := h.inv
  obtain ⟨s', r, hr, h', -⟩ := hi.getTimer h.keyed hok
  obtain ⟨lists', hi'⟩ := h'.inv
  exact ⟨s', by rw [step, hr]; rfl, ⟨c, lists', hi', h'.check ▸ hc⟩, h'.keyed⟩

/-- Without timers `CheckTimer` returns at once. -/
theorem checkTimer_idle (h0 : s.uiCount = 0) (cbs : List Callback) :
    s.checkTimer cbs = some s ∧ s.fired cbs = [] := by
  have hno : ∀ {K : Nat}, ¬ (s.uiCheckTime ≤ K ∧ 0 < s.uiCount) := by omega
  rw [Timer.checkTimer, Timer.fired]
  constructor
  · split
    · rw [runTimerList.eq_def]
      exact if_neg hno
    · rfl
  · split
    · rw [firedTicks.eq_def]
      split
      · rfl
      · exact if_neg hno
    · rfl

theorem WheelInv.checkTimer (h : WheelInv s) {cbs : List Callback} {tEnd : Nat}
    (hok : Ok s (.checkTimer cbs tEnd)) :
    ∃ s', s.step (.checkTimer cbs tEnd) = some s' ∧ WheelInv s' := by
  rcases hok with h0 | hok
  · exact ⟨s, (checkTimer_idle h0 cbs).1, h⟩
  obtain ⟨c, lists, hi, hc⟩ := h.inv
  obtain ⟨hm, ht, hA, hre⟩ := hok
  have hlive := live_of_timely hi ht hm.le
  -- a tick whose cascade is done is entered again only off the multiples of 256
  have hcas : Cascaded s.uiCheckTime 1 c := by
    rcases hc with hc | hd
    · exact hc
    have h0 : s.uiCheckTime % 256 ≠ 0 := fun h0 => hre ⟨hi.tv1.trans h0, by
      rw [hi.index 1 (by omega) (by omega), hd 1 (by omega) (by omega), span]
      omega⟩
    intro n h1 h4
    refine ⟨fun hlt => by omega, fun _ => ?_⟩
    rw [hd n h1 h4, if_neg]
    obtain rfl | rfl | rfl | rfl : n = 1 ∨ n = 2 ∨ n = 3 ∨ n = 4 := by omega
    all_goals
      simp only [span]
      omega
  obtain ⟨-, ⟨hb, hb'⟩, -⟩ := ht
  have hle := hm.le
  have hclock := hi.clock
  have hlt : (s.qwCurTime - s.qwBaseTime) / checkInvlUs < 2147483648 := by
    rw [checkInvlUs]
    omega
  have hu : u32 ((s.qwCurTime - s.qwBaseTime) / checkInvlUs) =
      (s.qwCurTime - s.qwBaseTime) / checkInvlUs := Nat.mod_eq_of_lt (by omega)
  have hreach : s.qwBaseTime + (s.qwCurTime - s.qwBaseTime) / checkInvlUs * checkInvlUs ≤
      s.qwCurTime := by
    have := Nat.div_mul_le_self (s.qwCurTime - s.qwBaseTime) checkInvlUs
    omega
  rw [Timer.step, Timer.checkTimer, hu]
  split
  · obtain ⟨s', T', c', A', hr, h', hk, hc', -⟩ := Live.runTimerList hreach hlt _ maxNodePerTry _ cbs
      c s _ hlive hcas hm hA (le_refl _)
    exact ⟨s', hr, wheelInv_of_live h' (hk h.keyed) hc'⟩
  · exact ⟨s, rfl, h⟩

theorem WheelInv.step {l : Label} (h : WheelInv s) (hok : Ok s l) :
    ∃ s', s.step l = some s' ∧ WheelInv s' := by
  cases l with
  | setCurTime now =>
    obtain ⟨c, lists, hi, hc⟩ := h.inv
    exact ⟨_, rfl, ⟨c, lists, hi.frame ⟨rfl, rfl, rfl, rfl, rfl, rfl, rfl, rfl, hok,
      fun _ _ => rfl⟩, hc⟩, h.keyed⟩
  | addTimer a =>
    obtain ⟨c, lists, hi, hc⟩ := h.inv
    obtain ⟨A', h', -⟩ := (live_of_timely hi hok.2 hok.1).addTimer a hok.1 (le_refl _)
    exact ⟨_, rfl, wheelInv_of_live h' (h.keyed.addTimer a) hc⟩
  | getTimer uiKey => exact h.getTimer hok
  | release n =>
    obtain ⟨c, lists, hi, hc⟩ := h.inv
    exact ⟨_, rfl, ⟨c, lists, hi.frame (Frame.setNode s hok _), hc⟩, h.keyed.setFields (.inr rfl)⟩
  | checkTimer cbs tEnd => exact h.checkTimer hok

/-- **The wheel keeps its timers.** Whatever timers are set, also from the
callbacks, in a run whose steps meet `Ok` every call returns and every timer
that was neither taken nor fired is on exactly one list. -/
theorem wheel_keeps_timers (now pid : Nat) (ls : List Label)
    (hok : Meets step Ok ls (initTimer now pid)) :
    ∃ s', run step ls (initTimer now pid) = some s' ∧ KeepsTimers s' := by
  obtain ⟨s', hr, hi⟩ := run_inv (fun _ _ h => h.step) (wheelInv_init now pid) hok
  exact ⟨s', hr, hi.keepsTimers⟩

/-- One timer, set and fired a second later. -/
theorem wheel_keeps_timers_one_second :
    ∃ s', run step [.addTimer ⟨7, 1000, false, 0, [], true, 0⟩, .setCurTime 1000000,
        .checkTimer [] 1000000] (initTimer 0 1) = some s' ∧ KeepsTimers s' := by
  refine wheel_keeps_timers 0 1 _ ⟨⟨by decide, by decide, ⟨by decide, by decide⟩, by decide⟩, ?_⟩
  intro s1 h1
  cases h1
  refine ⟨by show _ ≤ _; decide, fun s2 h2 => ?_⟩
  cases h2
  refine ⟨.inr ⟨?_, ⟨?_, ⟨?_, ?_⟩, ?_⟩, ?_, ?_⟩, fun _ _ => trivial⟩
  · show _ ≤ _; decide
  all_goals decide +kernel

/-! ## Looking a session up -/

/-- `GetTimer` returns 0 only for a timer that is set, and takes exactly that one. -/
def LooksUp (s : Timer) (uiKey : Nat) : Prop :=
  ∃ s' r, s.getTimer uiKey = some (s', r) ∧ (r.ret = 0 → ∃ n, r.pNode = some n ∧ Taken s s' uiKey n)

/-- **Sessions are found while they are set.** In a run whose steps meet `Ok`,
`uiCount` is the number of timers that are set, and a `GetTimer` that meets it
returns 0 only for the timer of its key. -/
theorem lookup_only_armed (now pid : Nat) (ls : List Label)
    (hok : Meets step Ok ls (initTimer now pid)) :
    ∃ s, run step ls (initTimer now pid) = some s ∧ s.uiCount = s.active.length ∧
      ∀ uiKey, Ok s (.getTimer uiKey) → LooksUp s uiKey := by
  obtain ⟨s, hr, hi⟩ := run_inv (fun _ _ h => h.step) (wheelInv_init now pid) hok
  obtain ⟨c, lists, hinv, -⟩ := hi.inv
  refine ⟨s, hr, hinv.count, fun uiKey hget => ?_⟩
  obtain ⟨s', r, hg, -, rfl | ⟨n, hn, ht⟩⟩ := hinv.getTimer hi.keyed hget
  · exact ⟨s', _, hg, fun h0 => by cases h0⟩
  · exact ⟨s', r, hg, fun _ => ⟨n, hn, ht⟩⟩

/-- Two sessions: one is taken, and the other one is looked up with its key. -/
theorem lookup_only_armed_two_sessions :
    ∃ s, run step [.addTimer ⟨7, 1000, false, 0, [], true, 0⟩,
        .addTimer ⟨8, 1000, false, 0, [], true, 0⟩, .getTimer 7] (initTimer 0 1) = some s ∧
      s.given = [7] ∧ s.uiCount = s.active.length ∧ LooksUp s 8 := by
  obtain ⟨s, hr, hcount, hlook⟩ := lookup_only_armed 0 1
    [.addTimer ⟨7, 1000, false, 0, [], true, 0⟩, .addTimer ⟨8, 1000, false, 0, [], true, 0⟩,
      .getTimer 7] (by
    refine ⟨⟨by decide, by decide, ⟨by decide, by decide⟩, by decide⟩, fun s1 h1 => ?_⟩
    cases h1
    refine ⟨⟨by decide, by decide, ⟨by decide, by decide⟩, by decide +kernel⟩, fun s2 h2 => ?_⟩
    cases h2
    exact ⟨⟨by decide, ⟨by decide +kernel, ⟨by decide, by decide⟩, by decide +kernel⟩,
      by decide +kernel⟩, fun _ _ => trivial⟩)
  refine ⟨s, hr, ?_, hcount, hlook 8 ?_⟩
  · cases hr
    decide +kernel
  · cases hr
    exact ⟨by decide, ⟨by decide +kernel, ⟨by decide +kernel, by decide +kernel⟩,
      by decide +kernel⟩, by decide +kernel⟩

/-- A session that is taken and released, and then the key 0; a session that is
taken twice; and the key 0 on a table that was never used. -/
theorem lookup_free_node :
    ((run step [.addTimer ⟨1117, 1000, false, 0, [], true, 0⟩, .getTimer 1117, .release 0]
        (initTimer 0 1)).bind fun s => (s.getTimer 0).map fun g =>
          (s.active, g.2.pNode, g.2.ret, g.1.uiCount)) = some ([], some 0, 0, 4294967295) ∧
    ((run step [.addTimer ⟨7, 1000, false, 0, [], true, 0⟩, .getTimer 7]
        (initTimer 0 1)).bind fun s => (s.getTimer 7).map fun g =>
          (s.active, g.2.pNode, g.2.ret, g.1.uiCount)) = some ([], some 7, 0, 4294967295) ∧
    ((initTimer 0 1).getTimer 0).isNone := by
  decide +kernel

/-! ## The tick that is entered twice -/

/-- Ten timers for tick 256 and one for tick 600, and `CheckTimer` twice at
tick 256. The clock stands still between the two calls. -/
def reentryRun : List Label :=
  (List.range 10).map (fun k => .addTimer ⟨k + 1, 25600, false, 0, [], true, 0⟩) ++
    [.addTimer ⟨11, 60000, false, 0, [], true, 0⟩, .setCurTime 25600000,
      .checkTimer [] 25600000, .checkTimer [] 25600000]

/-- **The wheel loses a timer.** The first `CheckTimer` fires ten nodes at tick
256 and leaves the tick early; the second cascades `tv2` once more and leaves
the timer of tick 600 linked to itself only. -/
theorem wheel_loses_timer : ∃ s', run step reentryRun (initTimer 0 1) = some s' ∧ 11 ∈ s'.active ∧
      (∀ i, ¬ OnList s' 11 i) ∧ ¬ KeepsTimers s' := by
  have hrun : (run step reentryRun (initTimer 0 1)).map
      (fun s => (s.pstNext (.node 11), s.active)) = some (.node 11, [11]) := by
    decide +kernel
  obtain ⟨s', hs, he⟩ := Option.map_eq_some_iff.mp hrun
  obtain ⟨hself, hact⟩ := Prod.mk.inj he
  have hon : ∀ i, ¬ OnList s' 11 i := fun i ⟨l, hl, hm⟩ => by
    obtain ⟨l1, l2, rfl⟩ := append_of_mem hm
    exact hl.links_ne_self.1 hself
  have hmem : 11 ∈ s'.active := by rw [hact]; exact mem_cons_self
  refine ⟨s', hs, hmem, hon, fun hk => ?_⟩
  obtain ⟨i, ⟨-, hi⟩, -⟩ := hk 11 hmem
  exact hon i hi

end DesPwd.L2.TimerWheel
