import DesPwd.L2Machine.TimerWheelRun

/-!
# The timer wheel: timers fire on their tick

A `CheckTimer` call for tick `K` fires the timers whose `uiExpire` has come, each
once and in the order of their ticks, as long as the wheel is not left early.
From this: in a run that checks the wheel often enough every timer fires in the
first `CheckTimer` whose tick is at least its `uiExpire`.

`Watch` is the wheel with the clock of the last `CheckTimer` (at first, of
`InitTimer`). No timer on the wheel is due at that clock, so none is more than
five minutes overdue when the next call comes within five minutes.

* `WatchInv.step`: one call of a run.
* `timers_fire_on_tick`: a whole run.
* `timer_misses_tick`: a first `CheckTimer` ten minutes after the timer was set
  finds the key of its node cleared; and when `uiExpire` wraps around at 2^32 the
  timer is taken for one that is long due.
-/
namespace DesPwd.L2.TimerWheel

open Rings Run List Timer

/-! ## What a run should do -/

/-- What becomes of the timer in node `n`, set for tick `E`: it stays set while the
ticks are before `E` and it is not taken, and fires in the first `CheckTimer` whose
tick is at least `E`, once; what is on the wheel after that call is for a later
tick. -/
def FiresAt (n E : Nat) : List Label → Timer → Prop
  | [], s => n ∈ s.active ∧ (s.node n).uiExpire = E
  | .checkTimer cbs tEnd :: ls, s =>
    ∃ s', s.step (.checkTimer cbs tEnd) = some s' ∧
      if E ≤ s.tick then
        (s.fired cbs).count n = 1 ∧ (n ∈ s'.active → s.tick < (s'.node n).uiExpire)
      else n ∉ s.fired cbs ∧ FiresAt n E ls s'
  | .getTimer uiKey :: ls, s =>
    ∃ s', s.step (.getTimer uiKey) = some s' ∧ (n ∈ s'.active → FiresAt n E ls s')
  | l :: ls, s => ∃ s', s.step l = some s' ∧ FiresAt n E ls s'

/-- The timers that fire in a step, with their ticks. -/
def stepFirings (s : Timer) : Label → List (Nat × Nat)
  | .checkTimer cbs _ => (s.fired cbs).map fun n => (n, (s.node n).uiExpire)
  | _ => []

/-- The timers that fire in a run, in that order. -/
def firings : List Label → Timer → List (Nat × Nat)
  | [], _ => []
  | l :: ls, s =>
    stepFirings s l ++
      match s.step l with
      | some s' => firings ls s'
      | none => []

/-! ## The condition -/

/-- The wheel with the clock of the last `CheckTimer`, or of `InitTimer`. -/
structure Watch where
  timer : Timer
  last : Nat

def Watch.step (w : Watch) (l : Label) : Option Watch :=
  (w.timer.step l).map fun s =>
    ⟨s, match l with
      | .checkTimer _ _ => w.timer.qwCurTime
      | _ => w.last⟩

theorem Watch.step_check {w : Watch} {cbs : List Callback} {tEnd : Nat} {s' : Timer}
    (hs : w.timer.step (.checkTimer cbs tEnd) = some s') :
    w.step (.checkTimer cbs tEnd) = some ⟨s', w.timer.qwCurTime⟩ := by
  unfold Watch.step
  rw [hs]
  rfl

theorem Watch.step_quiet {w : Watch} {l : Label} {s' : Timer}
    (hs : w.timer.step l = some s') (hl : ¬ ∃ cbs tEnd, l = .checkTimer cbs tEnd) :
    w.step l = some ⟨s', w.last⟩ := by
  unfold Watch.step
  rw [hs]
  cases l with
  | checkTimer cbs tEnd => exact absurd ⟨cbs, tEnd, rfl⟩ hl
  | _ => rfl

/-- What a call asks of the state it starts in: the clock does not go back and is
read at most five minutes after the last `CheckTimer`, the timeouts fit, and fewer
than `MAX_TIMER_NODE_PER_TRY` timers are due; nothing of a `CheckTimer` without timers. -/
def Punctual (w : Watch) : Label → Prop
  | .setCurTime now => w.timer.qwCurTime ≤ now
  | .addTimer a => w.timer.qwCurTime ≤ a.now ∧ a.now ≤ w.last + staleUs ∧ InTime w.timer a.now ∧
      FitsUs a.uiTimeOut
  | .getTimer uiKey => uiKey ≠ 0 ∧ w.timer.qwCurTime ≤ w.last + staleUs ∧
      InTime w.timer w.timer.qwCurTime ∧
      ∀ n ∈ w.timer.given, (w.timer.node n).uiKey = uiKey → n ∈ w.timer.active
  | .release n => n ∉ w.timer.active
  | .checkTimer cbs tEnd => w.timer.uiCount = 0 ∨
      Mono tEnd w.timer.qwCurTime (cbTimes cbs) ∧ tEnd ≤ w.last + staleUs ∧
      InTime w.timer tEnd ∧ w.timer.active.length + cbAdds cbs ≤ cascadeLimit ∧
      (∀ cb ∈ cbs, cb.Fits) ∧ dueCount w.timer.tick w.timer.active w.timer < maxNodePerTry

/-! ## Steps -/

/-- The tick of a clock reading. -/
def tickOf (s : Timer) (time : Nat) : Nat := (time - s.qwBaseTime) / checkInvlUs

/-- Between two calls: the wheel is not ahead of the last `CheckTimer`, and no timer
on it was due then. -/
structure WatchInv (w : Watch) : Prop where
  inv : ∃ c lists, Inv (fun _ => True) w.timer c lists w.timer.active ∧
    Cascaded w.timer.uiCheckTime 1 c
  keyed : Keyed [] w.timer
  base : w.timer.qwBaseTime ≤ w.last
  last : w.last ≤ w.timer.qwCurTime
  ahead : w.timer.uiCheckTime ≤ tickOf w.timer w.last + 1
  later : ∀ n ∈ w.timer.active, tickOf w.timer w.last < (w.timer.node n).uiExpire

theorem watchInv_init (now pid : Nat) : WatchInv ⟨initTimer now pid, now⟩ where
  inv := ⟨_, _, (inv_init now pid).1, (inv_init now pid).2⟩
  keyed := keyed_init now pid
  base := le_refl _
  last := le_refl _
  ahead := Nat.zero_le _
  later n hn := by cases hn

namespace WatchInv

variable {w : Watch} {s' : Timer} {tEnd : Nat}

section

variable (h : WatchInv w)
include h

/-- A call within five minutes of the last `CheckTimer` finds no stale timer. -/
theorem timely (h1 : tEnd ≤ w.last + staleUs) (h2 : InTime w.timer tEnd) : Timely w.timer tEnd := by
  obtain ⟨c, lists, hi, -⟩ := h.inv
  have hlast := h.last
  refine ⟨by omega, h2, fun n hn => ?_⟩
  obtain ⟨-, -, -, hb, hx, -⟩ := hi.node n hn
  have hlater := h.later n hn
  rw [hx] at hlater
  simp only [tickOf, checkInvlUs] at hlater
  omega

/-- A step that leaves the wheel where it is: the timers set before are those kept
and those that are new. -/
theorem of_fired {c : Nat → Nat} {lists : Nat × Nat → List Nat}
    (hi : Inv (fun _ => True) s' c lists s'.active) (hk : Keyed [] s')
    (hc : Cascaded w.timer.uiCheckTime 1 c)
    (hcheck : s'.uiCheckTime = w.timer.uiCheckTime) (hbase : s'.qwBaseTime = w.timer.qwBaseTime)
    (hcur : w.timer.qwCurTime ≤ s'.qwCurTime)
    (hlater : ∀ n ∈ s'.active, tickOf w.timer w.last < (s'.node n).uiExpire) :
    WatchInv ⟨s', w.last⟩ where
  inv := ⟨c, lists, hi, hcheck ▸ hc⟩
  keyed := hk
  base := hbase ▸ h.base
  last := le_trans h.last hcur
  ahead := by
    show s'.uiCheckTime ≤ (w.last - s'.qwBaseTime) / checkInvlUs + 1
    rw [hcheck, hbase]
    exact h.ahead
  later n hn := by
    show (w.last - s'.qwBaseTime) / checkInvlUs < _
    rw [hbase]
    exact hlater n hn

/-- A call other than `CheckTimer`: a timer that is set stays set for its tick, if it
is not taken. -/
theorem quiet {l : Label} (hok : Punctual w l) (hl : ¬ ∃ cbs tEnd, l = .checkTimer cbs tEnd) :
    ∃ s', w.timer.step l = some s' ∧ WatchInv ⟨s', w.last⟩ ∧ s'.qwBaseTime = w.timer.qwBaseTime ∧
      (∀ n ∈ w.timer.active, n ∈ s'.active ∨ ∃ uiKey, l = .getTimer uiKey) ∧
      ∀ n ∈ w.timer.active, n ∈ s'.active → (s'.node n).uiExpire = (w.timer.node n).uiExpire := by
  obtain ⟨c, lists, hi, hc⟩ := h.inv
  cases l with
  | setCurTime now =>
    refine ⟨_, rfl, h.of_fired (hi.frame ⟨rfl, rfl, rfl, rfl, rfl, rfl, rfl, rfl, hok,
      fun _ _ => rfl⟩) h.keyed hc rfl rfl hok h.later, rfl, fun n hn => .inl hn, fun n _ _ => rfl⟩
  | addTimer a =>
    obtain ⟨hcur, hrecent, htime, hfit⟩ := hok
    obtain ⟨A', h', -, -, -, hF⟩ :=
      (live_of_timely hi (h.timely hrecent htime) hcur).addTimer a hcur (le_refl _)
    obtain ⟨lists', hi'⟩ := h'.inv
    have hact := h'.active
    have hreach : w.timer.qwBaseTime + tickOf w.timer w.last * checkInvlUs ≤ w.timer.qwCurTime := by
      have := h.last
      have := h.base
      simp only [tickOf, checkInvlUs]
      omega
    have hfired := hF (tickOf w.timer w.last) hreach hfit
    rw [← hact] at hi' hfired
    refine ⟨_, rfl, h.of_fired hi' (h.keyed.addTimer a) hc h'.tick h'.base h'.since fun n hn => ?_,
      h'.base,
      fun n hn => .inl (hfired.kept n hn not_mem_nil).1,
      fun n hn _ => (hfired.kept n hn not_mem_nil).2⟩
    rcases hfired.fresh n hn with ⟨hA, -⟩ | hlt
    · rw [(hfired.kept n hA not_mem_nil).2]
      exact h.later n hA
    · exact hlt
  | getTimer uiKey =>
    obtain ⟨hk, hrecent, htime, hact⟩ := hok
    obtain ⟨s', r, hr, hs, -⟩ := hi.getTimer h.keyed ⟨hk, h.timely hrecent htime, hact⟩
    obtain ⟨lists', hi'⟩ := hs.inv
    refine ⟨s', by rw [step, hr]; rfl, h.of_fired hi' hs.keyed hc hs.check hs.base
      (le_of_eq hs.cur.symm) fun n hn => ?_, hs.base, fun n _ => .inr ⟨uiKey, rfl⟩,
      fun n _ hn => (hs.active n hn).2⟩
    rw [(hs.active n hn).2]
    exact h.later n (hs.active n hn).1
  | release m =>
    have hne : ∀ n ∈ w.timer.active, n ≠ m := fun n hn he => hok (he ▸ hn)
    refine ⟨_, rfl, h.of_fired (hi.frame (Frame.setNode w.timer hok _)) (h.keyed.setFields (.inr rfl))
      hc rfl rfl (le_refl _) fun n hn => ?_, rfl, fun n hn => .inl hn, fun n hn _ => ?_⟩
    · rw [setNode_of_ne _ (hne n hn)]
      exact h.later n hn
    · rw [setNode_of_ne _ (hne n hn)]
  | checkTimer cbs tEnd => exact absurd ⟨cbs, tEnd, rfl⟩ hl

theorem tickOf_last : tickOf w.timer w.last ≤ tickOf w.timer w.timer.qwCurTime :=
  Nat.div_le_div_right (Nat.sub_le_sub_right h.last _)

/-- The tick of a call does not wrap around, and is not before that of the last one. -/
theorem tick_eq (hle : w.timer.qwCurTime ≤ tEnd) (ht : InTime w.timer tEnd) :
    w.timer.tick = tickOf w.timer w.timer.qwCurTime ∧ tickOf w.timer w.last ≤ w.timer.tick ∧
      w.timer.tick < 2147483648 := by
  obtain ⟨hb, hb'⟩ := ht
  have hlt : tickOf w.timer w.timer.qwCurTime < 2147483648 := by
    simp only [tickOf, checkInvlUs]
    omega
  have htick : w.timer.tick = tickOf w.timer w.timer.qwCurTime :=
    Nat.mod_eq_of_lt (lt_trans hlt (by decide))
  rw [htick]
  exact ⟨rfl, h.tickOf_last, hlt⟩

/-- **CheckTimer.** Exactly the timers that are due fire, in order. -/
theorem checkTimer {cbs : List Callback} (hok : Punctual w (.checkTimer cbs tEnd)) :
    ∃ s', w.timer.step (.checkTimer cbs tEnd) = some s' ∧
      WatchInv ⟨s', w.timer.qwCurTime⟩ ∧ s'.qwBaseTime = w.timer.qwBaseTime ∧
      CallFired w.timer.tick (w.timer.fired cbs) w.timer.active w.timer s'.active s' := by
  obtain ⟨c, lists, hi, hc⟩ := h.inv
  rcases hok with h0 | ⟨hm, hrecent, htime, hA, hfit, hdue⟩
  · obtain ⟨hs, hF⟩ := checkTimer_idle h0 cbs
    have hno : ∀ n, n ∉ w.timer.active := fun n hn => by
      have := length_pos_of_mem hn
      rw [← hi.count] at this
      omega
    rw [hF]
    exact ⟨w.timer, hs, ⟨h.inv, h.keyed, hi.clock, le_refl _,
      le_trans h.ahead (Nat.succ_le_succ h.tickOf_last), fun n hn => absurd hn (hno n)⟩, rfl,
      .same fun _ _ => rfl, List.Pairwise.nil, fun n hn => absurd hn (hno n)⟩
  -- the wheel has not come further than the last call
  obtain ⟨htick, hmono, hlt⟩ := h.tick_eq hm.le htime
  have hlive := live_of_timely hi (h.timely hrecent htime) hm.le
  have hahead := h.ahead
  have hreach : w.timer.qwBaseTime + w.timer.tick * checkInvlUs ≤ w.timer.qwCurTime := by
    have hclock := hi.clock
    rw [htick]
    simp only [tickOf, checkInvlUs]
    omega
  have hlate : ∀ m ∈ w.timer.active, w.timer.uiCheckTime ≤ (w.timer.node m).uiExpire :=
    fun m hm => by
      have := h.later m hm
      omega
  rw [Timer.step, Timer.fired]
  by_cases hle : w.timer.uiCheckTime ≤ w.timer.tick
  · rw [if_pos hle]
    obtain ⟨s', T', c', A', hr, h', hk, -, hcall⟩ := Live.runTimerList hreach hlt
      (w.timer.tick + 1 - w.timer.uiCheckTime) maxNodePerTry _ cbs c w.timer _ hlive hc hm hA
      (le_refl _)
    replace hcall := hcall hlate hfit hdue
    obtain ⟨hc', hT', hcall⟩ := hcall
    obtain ⟨lists', hi'⟩ := h'.inv
    obtain rfl := h'.active
    obtain rfl := h'.tick
    refine ⟨s', (if_pos hle).trans hr, ⟨⟨c', lists', hi', hc'⟩, hk h.keyed, ?_, h'.since, ?_, ?_⟩,
      h'.base, hcall⟩
    · exact h'.base ▸ hi.clock
    · show s'.uiCheckTime ≤ (w.timer.qwCurTime - s'.qwBaseTime) / checkInvlUs + 1
      rw [h'.base]
      show _ ≤ tickOf w.timer w.timer.qwCurTime + 1
      omega
    · intro n hn
      show (w.timer.qwCurTime - s'.qwBaseTime) / checkInvlUs < _
      rw [h'.base]
      show tickOf w.timer w.timer.qwCurTime < _
      rw [← htick]
      exact hcall.done n hn
  · rw [if_neg hle]
    -- the last call was for the same tick
    have hdone : ∀ m ∈ w.timer.active, w.timer.tick < (w.timer.node m).uiExpire := fun m hm => by
      have := h.later m hm
      omega
    refine ⟨w.timer, if_neg hle, ⟨h.inv, h.keyed, hi.clock, le_refl _, ?_, ?_⟩, rfl,
      .same fun _ _ => rfl, List.Pairwise.nil, hdone⟩
    · show w.timer.uiCheckTime ≤ tickOf w.timer w.timer.qwCurTime + 1
      omega
    · intro n hn
      rw [← htick]
      exact hdone n hn

/-- **One step.** -/
theorem step {l : Label} (hok : Punctual w l) : ∃ w', w.step l = some w' ∧ WatchInv w' := by
  by_cases hl : ∃ cbs tEnd, l = .checkTimer cbs tEnd
  · obtain ⟨cbs, tEnd, rfl⟩ := hl
    obtain ⟨s', hs, h', -⟩ := h.checkTimer hok
    exact ⟨_, Watch.step_check hs, h'⟩
  · obtain ⟨s', hs, h', -⟩ := h.quiet hok hl
    exact ⟨_, Watch.step_quiet hs hl, h'⟩

end

/-! ## Runs -/

/-- Every timer on the wheel fires on its tick. -/
theorem firesAt : ∀ {ls} {w}, WatchInv w →
    Meets Watch.step Punctual ls w →
    ∀ n ∈ w.timer.active, FiresAt n (w.timer.node n).uiExpire ls w.timer
  | [], _, _, _, n, hn => ⟨hn, rfl⟩
  | l :: ls, w, h, hmeets, n, hn => by
    obtain ⟨hok, hrest⟩ := hmeets
    by_cases hl : ∃ cbs tEnd, l = .checkTimer cbs tEnd
    · obtain ⟨cbs, tEnd, rfl⟩ := hl
      obtain ⟨s', hs, h', -, hcall⟩ := h.checkTimer hok
      refine ⟨s', hs, ?_⟩
      split
      case isTrue hdue =>
        exact ⟨count_eq_one_of_mem hcall.fired.nodup (hcall.mem_iff.mpr ⟨hn, hdue⟩), hcall.done n⟩
      case isFalse hdue =>
        have hF : n ∉ w.timer.fired cbs := fun hF => hdue (hcall.mem_iff.mp hF).2
        obtain ⟨hn', he⟩ := hcall.fired.kept n hn hF
        exact ⟨hF, he ▸ firesAt h' (hrest _ (Watch.step_check hs)) n hn'⟩
    · obtain ⟨s', hs, h', -, hstay, hexp⟩ := h.quiet hok hl
      have hfires : n ∈ s'.active → FiresAt n (w.timer.node n).uiExpire ls s' := fun hn' => by
        have := firesAt h' (hrest _ (Watch.step_quiet hs hl)) n hn'
        rwa [hexp n hn hn'] at this
      cases l with
      | checkTimer cbs tEnd => exact absurd ⟨cbs, tEnd, rfl⟩ hl
      | getTimer uiKey => exact ⟨s', hs, hfires⟩
      | _ => exact ⟨s', hs, hfires ((hstay n hn).resolve_right (by simp))⟩

/-- What fires from now on is for a tick after the last `CheckTimer`, and in order. -/
theorem firings_sorted : ∀ {ls} {w}, WatchInv w →
    Meets Watch.step Punctual ls w →
    (∀ p ∈ firings ls w.timer, tickOf w.timer w.last < p.2) ∧
      (firings ls w.timer).Pairwise fun p q => p.2 ≤ q.2
  | [], _, _, _ => ⟨fun p hp => (by cases hp), List.Pairwise.nil⟩
  | l :: ls, w, h, hmeets => by
    obtain ⟨hok, hrest⟩ := hmeets
    by_cases hl : ∃ cbs tEnd, l = .checkTimer cbs tEnd
    · obtain ⟨cbs, tEnd, rfl⟩ := hl
      obtain ⟨s', hs, h', hbase, hcall⟩ := h.checkTimer hok
      obtain ⟨hafter, hsorted⟩ := firings_sorted h' (hrest _ (Watch.step_check hs))
      have hmono := h.tickOf_last
      have hbase' : tickOf s' w.timer.qwCurTime = tickOf w.timer w.timer.qwCurTime := by
        rw [tickOf, hbase]
        rfl
      have hmem : ∀ p ∈ stepFirings w.timer (.checkTimer cbs tEnd),
          tickOf w.timer w.last < p.2 ∧ p.2 ≤ tickOf w.timer w.timer.qwCurTime := by
        intro p hp
        obtain ⟨n, hn, rfl⟩ := mem_map.mp hp
        obtain ⟨hA, hK⟩ := hcall.fired.due n hn
        exact ⟨h.later n hA, le_trans hK (Nat.mod_le _ _)⟩
      simp only [firings, hs]
      refine ⟨fun p hp => ?_, pairwise_append.mpr ⟨?_, hsorted, fun p hp q hq => ?_⟩⟩
      · rcases mem_append.mp hp with hp | hp
        · exact (hmem p hp).1
        · have hp' : tickOf s' w.timer.qwCurTime < p.2 := hafter p hp
          omega
      · exact pairwise_map.mpr hcall.order
      · have hq' : tickOf s' w.timer.qwCurTime < q.2 := hafter q hq
        have := (hmem p hp).2
        omega
    · obtain ⟨s', hs, h', hbase, -⟩ := h.quiet hok hl
      obtain ⟨hafter, hsorted⟩ := firings_sorted h' (hrest _ (Watch.step_quiet hs hl))
      have he : firings (l :: ls) w.timer = firings ls s' := by
        simp only [firings, hs]
        cases l with
        | checkTimer cbs tEnd => exact absurd ⟨cbs, tEnd, rfl⟩ hl
        | _ => rfl
      rw [he]
      refine ⟨fun p hp => ?_, hsorted⟩
      have := hafter p hp
      unfold tickOf at this
      rwa [hbase] at this

end WatchInv

theorem run_timer : ∀ {ls} {w w'}, run Watch.step ls w = some w' →
    run step ls w.timer = some w'.timer
  | [], _, _, h => by
    cases h
    rfl
  | l :: ls, w, w', h => by
    obtain ⟨w1, hs, hr⟩ := Option.bind_eq_some_iff.mp h
    obtain ⟨s1, hs1, rfl⟩ := Option.map_eq_some_iff.mp hs
    rw [run, hs1]
    exact run_timer hr

/-- **Timers fire on their tick.** In a run whose steps meet `Punctual` every timer,
from any moment at which it is set, fires exactly once unless it is taken: in the
first `CheckTimer` whose tick is at least its `uiExpire`; and the timers fire in the
order of `uiExpire`. -/
theorem timers_fire_on_tick (now pid : Nat) (ls : List Label)
    (hok : Meets Watch.step Punctual ls ⟨initTimer now pid, now⟩) :
    (∀ pre post, ls = pre ++ post → ∃ s, run step pre (initTimer now pid) = some s ∧
      ∀ n ∈ s.active, FiresAt n (s.node n).uiExpire post s) ∧
    (firings ls (initTimer now pid)).Pairwise fun p q => p.2 ≤ q.2 := by
  have hinit := watchInv_init now pid
  refine ⟨fun pre post hls => ?_, (hinit.firings_sorted hok).2⟩
  subst hls
  obtain ⟨hpre, hpost⟩ := hok.split
  obtain ⟨w, hr, hi⟩ := run_inv (fun _ _ h => h.step) hinit hpre
  exact ⟨w.timer, run_timer hr, hi.firesAt (hpost w hr)⟩

/-- Two timers, set in the order of their keys and fired in the order of their ticks. -/
theorem timers_fire_on_tick_two :
    let ls : List Label := [.addTimer ⟨7, 2000, false, 0, [], true, 0⟩,
      .addTimer ⟨8, 1000, false, 0, [], true, 0⟩, .setCurTime 3000000, .checkTimer [] 3000000]
    (∀ pre post, ls = pre ++ post → ∃ s, run step pre (initTimer 0 1) = some s ∧
      ∀ n ∈ s.active, FiresAt n (s.node n).uiExpire post s) ∧
    (firings ls (initTimer 0 1)).Pairwise (fun p q => p.2 ≤ q.2) ∧
    firings ls (initTimer 0 1) = [(8, 10), (7, 20)] := by
  intro ls
  have h := timers_fire_on_tick 0 1 ls ?_
  · exact ⟨h.1, h.2, by decide +kernel⟩
  refine ⟨⟨by decide, by decide, ⟨by decide, by decide⟩, by decide⟩, fun w1 h₁ => ?_⟩
  cases h₁
  refine ⟨⟨by decide, by decide, ⟨by decide, by decide⟩, by decide⟩, fun w2 h₂ => ?_⟩
  cases h₂
  refine ⟨by show _ ≤ _; decide, fun w3 h3 => ?_⟩
  cases h3
  refine ⟨.inr ⟨?_, ?_, ⟨?_, ?_⟩, ?_, ?_, ?_⟩, fun _ _ => trivial⟩
  · show _ ≤ _; decide
  · decide +kernel
  · decide +kernel
  · decide +kernel
  · decide +kernel
  · intro cb hcb
    cases hcb
  · decide +kernel

/-! ## Timers that miss their tick -/

/-- `n` calls of `CheckTimer` on the empty wheel, `p` apart. -/
def idleRun (p : Nat) : Nat → List Label
  | 0 => []
  | n + 1 => idleRun p n ++ [.setCurTime ((n + 1) * p), .checkTimer [] ((n + 1) * p)]

/-- The wheel of `InitTimer` at a later clock. -/
def idleAt (time : Nat) : Timer := { initTimer 0 1 with qwCurTime := time }

theorem run_idleRun (p : Nat) : ∀ n, run step (idleRun p n) (initTimer 0 1) = some (idleAt (n * p))
  | 0 => by rw [Nat.zero_mul]; rfl
  | n + 1 => by
    have hset : (idleAt (n * p)).step (.setCurTime ((n + 1) * p)) = some (idleAt ((n + 1) * p)) := rfl
    rw [idleRun, run_append, run_idleRun p n, Option.bind_some, run, hset, Option.bind_some]
    rfl

/-- A timer set at time 0 for a second later, and the first `CheckTimer` after ten minutes. And
a wheel that stays empty for 2^32 - 5 ticks, then a timer for a second later: its `uiExpire`
is 5, five ticks ahead of `uiCheckTime`. Neither fires in the next `CheckTimer`. -/
theorem timer_misses_tick :
    (∃ s, run step [.addTimer ⟨7, 1000, false, 0, [], true, 0⟩] (initTimer 0 1) = some s ∧
      7 ∈ s.active ∧ (s.node 7).uiExpire = 10 ∧
      ¬ FiresAt 7 10 [.setCurTime 600000000, .checkTimer [] 600000000] s) ∧
    (∃ s, run step (idleRun 250000000 1717986 ++ [.setCurTime 429496729100000,
        .checkTimer [] 429496729100000,
        .addTimer ⟨7, 1000, false, 0, [], true, 429496729100000⟩]) (initTimer 0 1) = some s ∧
      7 ∈ s.active ∧ (s.node 7).uiExpire = 5 ∧ s.uiCheckTime = 0 ∧ s.tick = 4294967291 ∧
      ¬ FiresAt 7 5 [.checkTimer [] 429496729100000] s) := by
  have hmiss : ∀ {s : Timer} {n E : Nat} {cbs : List Callback} {tEnd : Nat},
      E ≤ s.tick → (s.fired cbs).count n ≠ 1 → ¬ FiresAt n E [.checkTimer cbs tEnd] s := by
    rintro s n E cbs tEnd hE hcount ⟨s', -, h⟩
    rw [if_pos hE] at h
    exact hcount h.1
  constructor
  · refine ⟨_, rfl, by decide +kernel, by decide +kernel, ?_⟩
    rintro ⟨s', hs, h⟩
    cases hs
    exact hmiss (by decide +kernel) (by decide +kernel) h
  · let s := ((idleAt 429496729100000).addTimer ⟨7, 1000, false, 0, [], true, 429496729100000⟩).1
    have hlast : run step [.setCurTime 429496729100000, .checkTimer [] 429496729100000,
        .addTimer ⟨7, 1000, false, 0, [], true, 429496729100000⟩] (idleAt (1717986 * 250000000)) =
        some s := by
      rfl
    refine ⟨s, ?_, by decide +kernel, by decide +kernel, by decide +kernel, by decide +kernel,
      hmiss (by decide +kernel) (by decide +kernel)⟩
    rw [run_append, run_idleRun]
    exact hlast

end DesPwd.L2.TimerWheel
