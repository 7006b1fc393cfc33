import DesPwd.L2Machine.TimerWheelCascade

/-!
# The timer wheel: calls

`Live` is the invariant within a call, with the clock that moves on during it
and the node that is being fired. The callbacks of `RunTimerList` may set any
number of timers, and their own again.

* `Fired`: which timers fired between two states, and what became of the others.
* `Live.addTimer`, `Live.updateTimer`: setting a timer.
* `Live.runNodes`: the list of a tick is fired node by node.
* `Live.runTimerList`: the ticks of a call, each with its cascade first.
-/
namespace DesPwd.L2.TimerWheel

open Rings List Timer
open Function (update_of_ne update_self)

/-! ## What fired -/

/-- Between the timers `A` of `s` and the timers `A'` of `s'` the timers `F` fired,
each once and all due at tick `K`; the others are still set for their tick, and
those that are new expire after `K`. -/
structure Fired (K : Nat) (F A : List Nat) (s : Timer) (A' : List Nat) (s' : Timer) : Prop where
  due : ∀ m ∈ F, m ∈ A ∧ (s.node m).uiExpire ≤ K
  nodup : F.Nodup
  kept : ∀ m ∈ A, m ∉ F → m ∈ A' ∧ (s'.node m).uiExpire = (s.node m).uiExpire
  fresh : ∀ m ∈ A', (m ∈ A ∧ m ∉ F) ∨ K < (s'.node m).uiExpire

section Fired

variable {K T n : Nat} {F F' A A' A'' : List Nat} {s s' s'' : Timer}

theorem Fired.same (h : ∀ m ∈ A, (s'.node m).uiExpire = (s.node m).uiExpire) :
    Fired K [] A s A s' where
  due m hm := by cases hm
  nodup := nodup_nil
  kept m hm _ := ⟨hm, h m hm⟩
  fresh m hm := .inl ⟨hm, not_mem_nil⟩

theorem Fired.new (h : ∀ m ∈ A, (s'.node m).uiExpire = (s.node m).uiExpire)
    (hn : K < (s'.node n).uiExpire) : Fired K [] A s (n :: A) s' where
  due m hm := by cases hm
  nodup := nodup_nil
  kept m hm _ := ⟨mem_cons_of_mem _ hm, h m hm⟩
  fresh m hm := by
    rcases mem_cons.mp hm with rfl | hm
    · exact .inr hn
    · exact .inl ⟨hm, not_mem_nil⟩

section

variable (h : Fired K F A s A' s')
include h

/-- A timer that is due later in a call was set before it. -/
theorem Fired.before {m : Nat} (hm : m ∈ A') (hK : (s'.node m).uiExpire ≤ K) :
    m ∈ A ∧ m ∉ F ∧ (s'.node m).uiExpire = (s.node m).uiExpire := by
  rcases h.fresh m hm with ⟨hA, hF⟩ | hlt
  · exact ⟨hA, hF, (h.kept m hA hF).2⟩
  · omega

theorem Fired.trans (h' : Fired K F' A' s' A'' s'') : Fired K (F ++ F') A s A'' s'' where
  due m hm := by
    rcases mem_append.mp hm with hm | hm
    · exact h.due m hm
    · obtain ⟨hA', hK⟩ := h'.due m hm
      obtain ⟨hA, -, he⟩ := h.before hA' hK
      exact ⟨hA, he ▸ hK⟩
  nodup := by
    refine nodup_append.mpr ⟨h.nodup, h'.nodup, fun a ha b hb he => ?_⟩
    obtain ⟨hA', hK⟩ := h'.due b hb
    exact (h.before hA' hK).2.1 (he ▸ ha)
  kept m hm hF := by
    rw [mem_append, not_or] at hF
    obtain ⟨h1, he⟩ := h.kept m hm hF.1
    obtain ⟨h2, he'⟩ := h'.kept m h1 hF.2
    exact ⟨h2, he'.trans he⟩
  fresh m hm := by
    rcases h'.fresh m hm with ⟨hA', hF'⟩ | hlt
    · rcases h.fresh m hA' with ⟨hA, hF⟩ | hlt
      · exact .inl ⟨hA, fun hmem => (mem_append.mp hmem).elim hF hF'⟩
      · exact .inr ((h'.kept m hA' hF').2 ▸ hlt)
    · exact .inr hlt

/-- The number of timers that are due at tick `K`. -/
def dueCount (K : Nat) (A : List Nat) (s : Timer) : Nat :=
  (A.filter fun m => (s.node m).uiExpire ≤ K).length

theorem Fired.dueCount (hA' : A'.Nodup) : F.length + dueCount K A' s' ≤ dueCount K A s := by
  have hnd : (F ++ A'.filter fun m => (s'.node m).uiExpire ≤ K).Nodup := by
    refine nodup_append.mpr ⟨h.nodup, hA'.filter _, fun a ha b hb he => ?_⟩
    obtain ⟨hb, hK⟩ := mem_filter.mp hb
    exact (h.before hb (of_decide_eq_true hK)).2.1 (he ▸ ha)
  have hsub : F ++ (A'.filter fun m => (s'.node m).uiExpire ≤ K) ⊆
      A.filter fun m => (s.node m).uiExpire ≤ K := by
    intro m hm
    rcases mem_append.mp hm with hm | hm
    · obtain ⟨hA, hK⟩ := h.due m hm
      exact mem_filter.mpr ⟨hA, decide_eq_true hK⟩
    · obtain ⟨hm, hK⟩ := mem_filter.mp hm
      obtain ⟨hA, -, he⟩ := h.before hm (of_decide_eq_true hK)
      exact mem_filter.mpr ⟨hA, by rw [← he]; exact hK⟩
  have hle := (hnd.subperm hsub).length_le
  rwa [length_append] at hle

/-- In a call for tick `K` exactly the timers that are due fired, in the order of
their ticks. -/
structure CallFired (K : Nat) (F A : List Nat) (s : Timer) (A' : List Nat) (s' : Timer) :
    Prop where
  fired : Fired K F A s A' s'
  order : F.Pairwise fun a b => (s.node a).uiExpire ≤ (s.node b).uiExpire
  done : ∀ m ∈ A', K < (s'.node m).uiExpire

theorem CallFired.cons (hT : ∀ m ∈ F, (s.node m).uiExpire = T)
    (hlater : ∀ m ∈ A', T < (s'.node m).uiExpire) (h' : CallFired K F' A' s' A'' s'') :
    CallFired K (F ++ F') A s A'' s'' where
  fired := h.trans h'.fired
  order := by
    have hsame : ∀ m ∈ F', m ∈ A' ∧ (s'.node m).uiExpire = (s.node m).uiExpire := fun m hm => by
      obtain ⟨hA', hK⟩ := h'.fired.due m hm
      exact ⟨hA', (h.before hA' hK).2.2⟩
    refine pairwise_append.mpr ⟨?_, ?_, fun a ha b hb => ?_⟩
    · exact pairwise_of_forall_mem_list fun a ha b hb =>
        le_of_eq ((hT a ha).trans (hT b hb).symm)
    · refine h'.order.imp_of_mem fun {a b} ha hb hab => ?_
      rw [← (hsame a ha).2, ← (hsame b hb).2]
      exact hab
    · obtain ⟨hA', he⟩ := hsame b hb
      have := hlater b hA'
      rw [hT a ha]
      omega
  done := h'.done

end

theorem CallFired.mem_iff (h : CallFired K F A s A' s') :
    n ∈ F ↔ n ∈ A ∧ (s.node n).uiExpire ≤ K := by
  refine ⟨h.fired.due n, fun ⟨hA, hK⟩ => ?_⟩
  by_contra hF
  obtain ⟨hA', he⟩ := h.fired.kept n hA hF
  have := h.done n hA'
  omega

end Fired

/-! ## During a call -/

/-- A node that no search up to the time `M` takes for a stale one. -/
structure Held (M : Nat) (s : Timer) (n : Nat) : Prop where
  key : (s.node n).uiKey ≠ 0
  slot : n ∈ slots (s.node n).uiKey
  pid : (s.node n).dwProcessId = s.dwProcessId
  fresh : M ≤ (s.node n).qwExpireTime + staleUs

/-- The wheel within a call that began at the time `t` and ends by the time
`M`: `A` are the timers on it, `X` a node that was unlinked and is in use. -/
structure Live (b t M T : Nat) (c : Nat → Nat) (X A : List Nat) (s : Timer) : Prop where
  inv : ∃ lists, Inv (fun _ => True) s c lists A
  disj : ∀ n ∈ X, n ∉ A
  held : ∀ n ∈ X ++ A, Held M s n
  active : s.active = A
  since : t ≤ s.qwCurTime
  cur : s.qwCurTime ≤ M
  recent : M ≤ t + staleUs
  time : InTime s M
  tick : s.uiCheckTime = T
  base : s.qwBaseTime = b

section Live

variable {b t M T n : Nat} {c : Nat → Nat} {X A : List Nat} {s s' : Timer}

theorem Held.congr (h : Held M s n) (hn : s'.node n = s.node n)
    (hp : s'.dwProcessId = s.dwProcessId) : Held M s' n := by
  obtain ⟨h1, h2, h3, h4⟩ := h
  constructor <;> simp only [hn, hp] <;> assumption

section

variable (h : Live b t M T c X A s)
include h

theorem Live.clean : Clean (X ++ A) s := fun n hn =>
  ⟨(h.held n hn).pid, le_trans h.cur (h.held n hn).fresh⟩

theorem Live.frame (hf : Frame (X ++ A) s s')
    (ha : s'.active = s.active) (hc : s'.qwCurTime ≤ M) : Live b t M T c X A s' := by
  obtain ⟨lists, hi⟩ := h.inv
  have hfA : Frame A s s' := { hf with node := fun n hn => hf.node n (mem_append_right _ hn) }
  exact
  { inv := ⟨lists, hi.frame hfA⟩
    disj := h.disj
    held := fun n hn => (h.held n hn).congr (hf.node n hn) hf.pid
    active := ha.trans h.active
    since := le_trans h.since hf.clock
    cur := hc
    recent := h.recent
    time := by rw [InTime, hf.base]; exact h.time
    tick := hf.check.trans h.tick
    base := hf.base.trans h.base }

theorem Live.inTime : InTime s s.qwCurTime := by
  obtain ⟨lists, hi⟩ := h.inv
  obtain ⟨-, h2⟩ := h.time
  have := h.cur
  exact ⟨hi.clock, by omega⟩

/-- A tick that had come when the call began has come. -/
theorem Live.reached {K : Nat} (hK : b + K * checkInvlUs ≤ t) :
    s.qwBaseTime + K * checkInvlUs ≤ s.qwCurTime :=
  h.base ▸ le_trans hK h.since

theorem Live.setNode (hn : n ∉ X ++ A) (nd : TimerNode) : Live b t M T c X A (s.setNode n nd) :=
  h.frame (Frame.setNode s hn nd) rfl h.cur

/-- Writing fields of a node that the wheel does not depend on. -/
theorem Live.setFields (n : Nat) (nd : TimerNode)
    (hk : nd.uiKey = (s.node n).uiKey) (hp : nd.dwProcessId = (s.node n).dwProcessId)
    (he : nd.uiExpire = (s.node n).uiExpire) (hq : nd.qwExpireTime = (s.node n).qwExpireTime) :
    Live b t M T c X A (s.setNode n nd) := by
  obtain ⟨lists, hi⟩ := h.inv
  have hn : ∀ m, ((s.setNode n nd).node m).uiKey = (s.node m).uiKey ∧
      ((s.setNode n nd).node m).dwProcessId = (s.node m).dwProcessId ∧
      ((s.setNode n nd).node m).uiExpire = (s.node m).uiExpire ∧
      ((s.setNode n nd).node m).qwExpireTime = (s.node m).qwExpireTime := fun m => by
    by_cases hm : m = n
    · subst hm
      rw [setNode_self]
      exact ⟨hk, hp, he, hq⟩
    · rw [setNode_of_ne s hm]
      exact ⟨rfl, rfl, rfl, rfl⟩
  refine { h with inv := ⟨lists, ?_⟩, held := fun m hm => ?_ }
  · refine { hi with placed := fun i m hm => ?_, node := fun m hm => ?_ }
    · rw [(hn m).2.2.1]
      exact hi.placed i m hm
    · obtain ⟨h1, h2, h3, h4⟩ := hn m
      obtain ⟨g1, g2, g3, g4, g5, g6⟩ := hi.node m hm
      exact ⟨h1 ▸ g1, h1 ▸ g2, h2 ▸ g3, h4 ▸ g4, by rw [h3, h4]; exact g5, h3 ▸ g6⟩
  · obtain ⟨h1, h2, h3, h4⟩ := hn m
    obtain ⟨g1, g2, g3, g4⟩ := h.held m hm
    exact ⟨h1 ▸ g1, h1 ▸ g2, h2 ▸ g3, h4 ▸ g4⟩

end

theorem arm_node (s : Timer) (n : Nat) : ((s.arm n).node n).uiKey = (s.node n).uiKey ∧
    ((s.arm n).node n).dwProcessId = s.dwProcessId ∧
    s.qwCurTime ≤ ((s.arm n).node n).qwExpireTime ∧
    ∀ m, m ≠ n → (s.arm n).node m = s.node m := by
  refine ⟨?_, ?_, ?_, fun m hm => ?_⟩ <;>
    simp [arm, internalAddTimer, listAdd, setNode]
  rw [update_of_ne hm]

/-- A timeout whose microseconds fit an `unsigned`. -/
def FitsUs (uiTimeOut : Nat) : Prop := uiTimeOut * 1000 < 4294967296

instance (ms : Nat) : Decidable (FitsUs ms) := inferInstanceAs (Decidable (_ < _))

theorem arm_later {K : Nat} (ht : InTime s s.qwCurTime) (hK : s.qwBaseTime + K * checkInvlUs ≤ s.qwCurTime)
    (hfit : FitsUs (s.node n).uiTimeOut) : K < ((s.arm n).node n).uiExpire := by
  have hus : ∃ us, timeMsToUs (if (s.node n).uiTimeOut < 1000 then 1000 else (s.node n).uiTimeOut) =
      us ∧ 1000000 ≤ us ∧ us < 4294967296 := by
    refine ⟨_, rfl, ?_, Nat.mod_lt _ (by decide)⟩
    rw [timeMsToUs, u32]
    split
    · decide
    · rw [Nat.mod_eq_of_lt hfit]
      omega
  obtain ⟨hb, hb'⟩ := ht
  simp only [arm, internalAddTimer, listAdd, setNode, update_self, u32, checkInvlUs] at hK ⊢
  omega

/-- What `AddTimer` and `UpdateTimer` store, in the types of the source: the product of
`TIME_MS_TO_US` is an `unsigned`; mirrors sv_timer.cpp:143-145, 193-195 -/
def expireTimes (uiTimeOut : UInt32) (qwCurTime qwBaseTime : UInt64) : UInt64 × UInt32 :=
  ((uiTimeOut * 1000).toUInt64 + qwCurTime,
    ((qwCurTime - qwBaseTime + (uiTimeOut * 1000).toUInt64) / 100000).toUInt32)

theorem toNat_toUs (t : UInt32) : (t * 1000).toUInt64.toNat = timeMsToUs t.toNat :=
  UInt32.toNat_mul t 1000

/-- The tick, wherever the difference it is taken of is in the range of the clock. -/
theorem toNat_expireTimes_snd {t : UInt32} {now base : UInt64} {d : Nat}
    (hd : base.toNat + d = now.toNat + timeMsToUs t.toNat) (hlt : d < 2 ^ 64) :
    (expireTimes t now base).2.toNat = u32 (d / checkInvlUs) := by
  have hb := base.toNat_lt
  have hsum : (now - base + (t * 1000).toUInt64).toNat = d := by
    rw [UInt64.toNat_add, UInt64.toNat_sub, Nat.mod_add_mod, toNat_toUs,
      show 2 ^ 64 - base.toNat + now.toNat + timeMsToUs t.toNat = 2 ^ 64 + d by omega,
      Nat.add_mod_left, Nat.mod_eq_of_lt hlt]
  rw [expireTimes, UInt64.toNat_toUInt32, UInt64.toNat_div, hsum]
  rfl

/-- These are the times of a timer that is set, while the clock is not behind the base. -/
theorem arm_expireTimes {s : Timer} {n : Nat} {t : UInt32} {now base : UInt64}
    (ht : (s.node n).uiTimeOut = t.toNat) (hmin : 1000 ≤ t.toNat) (hnow : s.qwCurTime = now.toNat)
    (hbase : s.qwBaseTime = base.toNat) (hle : base ≤ now) (hfar : now.toNat + 2 ^ 32 ≤ 2 ^ 64) :
    ((s.arm n).node n).qwExpireTime = (expireTimes t now base).1.toNat ∧
      ((s.arm n).node n).uiExpire = (expireTimes t now base).2.toNat := by
  rw [UInt64.le_iff_toNat_le] at hle
  have hlt : timeMsToUs t.toNat < 4294967296 := Nat.mod_lt _ (by decide)
  rw [toNat_expireTimes_snd (d := now.toNat - base.toNat + timeMsToUs t.toNat) (by omega) (by omega),
    expireTimes, UInt64.toNat_add, toNat_toUs, Nat.mod_eq_of_lt (by omega)]
  simp [arm, internalAddTimer, listAdd, setNode, ht, hnow, hbase, not_lt.2 hmin]

/-- **The times of a timer.** For every time out and clock: the expire time is the time out
behind the clock, and the tick is its floor wherever that is an `unsigned`, exactly if the
microseconds fit an `unsigned`. -/
theorem expire_times_iff (t : UInt32) (now base : UInt64) :
    ((expireTimes t now base).1 = now + t.toUInt64 * 1000 ∧
      ∀ k : UInt32, ((now.toNat : Int) - base.toNat + t.toNat * 1000) / 100000 = k.toNat →
        (expireTimes t now base).2 = k) ↔ FitsUs t.toNat := by
  have hexact : (t.toUInt64 * 1000).toNat = t.toNat * 1000 := by
    have := t.toNat_lt
    rw [UInt64.toNat_mul, UInt32.toNat_toUInt64, show (1000 : UInt64).toNat = 1000 from rfl,
      Nat.mod_eq_of_lt (by omega)]
  have hfst : (expireTimes t now base).1 = now + t.toUInt64 * 1000 ↔ FitsUs t.toNat := by
    rw [expireTimes, UInt64.add_comm, UInt64.add_right_inj, ← UInt64.toNat_inj, hexact]
    exact Nat.mod_eq_iff_lt (by decide)
  rw [hfst, and_iff_left_of_imp]
  intro hfit k hk
  have hlt := k.toNat_lt
  obtain ⟨d, hd⟩ := Int.eq_ofNat_of_zero_le
    (show 0 ≤ (now.toNat : Int) - base.toNat + t.toNat * 1000 by omega)
  have hms : timeMsToUs t.toNat = t.toNat * 1000 := Nat.mod_eq_of_lt hfit
  rw [← UInt32.toNat_inj, toNat_expireTimes_snd (d := d) (by omega) (by omega), u32, checkInvlUs]
  omega

/-- A time out of two hours expires after 48 minutes. -/
theorem expire_times_two_hours : (expireTimes 7200000 0 0).1 = 2905032704 ∧
    (0 : UInt64) + (7200000 : UInt32).toUInt64 * 1000 = 7200000000 := by
  decide

theorem Live.arm {X' : List Nat} (h : Live b t M T c X A s) (hn : n ∉ A)
    (hk : (s.node n).uiKey ≠ 0) (hs : n ∈ slots (s.node n).uiKey)
    (hX : ∀ m ∈ X', m ∈ X ∧ m ≠ n) : Live b t M T c X' (n :: A) (s.arm n) := by
  obtain ⟨lists, hi⟩ := h.inv
  obtain ⟨hkey, hpid, hexp, hother⟩ := arm_node s n
  obtain ⟨lists', hi'⟩ := hi.arm hn hk hs h.inTime
  refine ⟨⟨lists', hi'⟩, fun m hm => ?_, fun m hm => ?_, congrArg _ h.active, h.since, h.cur,
    h.recent, h.time, h.tick, h.base⟩
  · rw [mem_cons, not_or]
    exact ⟨(hX m hm).2, h.disj m (hX m hm).1⟩
  by_cases hmn : m = n
  · subst hmn
    refine ⟨by rw [hkey]; exact hk, by rw [hkey]; exact hs, hpid, ?_⟩
    have := h.recent
    have := h.since
    omega
  · refine (h.held m ?_).congr (hother m hmn) rfl
    rcases mem_append.mp hm with hm | hm
    · exact mem_append_left _ (hX m hm).1
    · exact mem_append_right _ ((mem_cons.mp hm).resolve_left hmn)

/-- **AddTimer within a call.** -/
theorem Live.addTimer (h : Live b t M T c X A s) (a : Timer.AddCall) (h1 : s.qwCurTime ≤ a.now)
    (h2 : a.now ≤ M) :
    ∃ A', Live b t M T c X A' (s.addTimer a).1 ∧ A'.length ≤ A.length + 1 ∧
      (s.addTimer a).1.qwCurTime ≤ a.now ∧ (∀ n ∈ X, (s.addTimer a).1.node n = s.node n) ∧
      ∀ K, b + K * checkInvlUs ≤ t → FitsUs a.uiTimeOut → Fired K [] A s A' (s.addTimer a).1 := by
  unfold Timer.addTimer
  split
  · exact ⟨A, h, Nat.le_succ _, h1, fun _ _ => rfl, fun _ _ _ => .same fun _ _ => rfl⟩
  have hframe := h.clean.looks (Timer.seen s.keyNow a.uiKey (Timer.slots a.uiKey))
  rw [Timer.hashTableSearchEx_eq]
  generalize hms : Timer.seen s.keyNow a.uiKey (Timer.slots a.uiKey) = ms at hframe
  have hl1 : Live b t M T c X A (s.looks ms) := h.frame hframe rfl h.cur
  have hX : ∀ n ∈ X, (s.looks ms).node n = s.node n := fun n hn =>
    hframe.node n (mem_append_left _ hn)
  have hE : ∀ n ∈ A, ((s.looks ms).node n).uiExpire = (s.node n).uiExpire := fun n _ =>
    s.uiExpire_looks ms n
  cases hfind : (Timer.slots a.uiKey).find? fun n => a.uiKey = s.keyNow n with
  | some n => exact ⟨A, hl1, Nat.le_succ _, h1, hX, fun _ _ _ => .same hE⟩
  | none =>
    cases hfree : (Timer.slots a.uiKey).find? fun n => 0 = s.keyNow n with
    | none => exact ⟨A, hl1, Nat.le_succ _, h1, hX, fun _ _ _ => .same hE⟩
    | some n =>
      obtain ⟨hslot, hk0, hkey⟩ := Timer.free_of_find hfind hfree
      rw [← s.uiKey_looks hslot, ← Timer.seen_of_none hfind, hms] at hk0
      have hnXA : n ∉ X ++ A := fun hm => (hl1.held n hm).key hk0
      have hne : ∀ m ∈ X, m ≠ n := fun m hm he => hnXA (he ▸ mem_append_left _ hm)
      have hneA : ∀ m ∈ A, m ≠ n := fun m hm he => hnXA (he ▸ mem_append_right _ hm)
      simp only [Option.none_or]
      split
      · refine ⟨A, hl1.setNode hnXA _, Nat.le_succ _, h1, fun m hm =>
          (update_of_ne (hne m hm) ..).trans (hX m hm), fun _ _ _ => .same fun m hm => ?_⟩
        rw [Timer.setNode_of_ne _ (hneA m hm)]
        exact hE m hm
      · -- the clock is read, the node filled in, then linked
        have hl2 : Live b t M T c X A { s.looks ms with qwCurTime := a.now } :=
          hl1.frame ⟨rfl, rfl, rfl, rfl, rfl, rfl, rfl, rfl, h1, fun _ _ => rfl⟩ rfl h2
        have hl3 := hl2.setNode hnXA { (s.looks ms).node n with
          pDataPtr := if a.sData = [] then none else some a.sData
          onExpire := a.onExpire, uiDataLen := a.sData.length
          uiTimeOut := a.uiTimeOut, uiKey := a.uiKey }
        have hself := fun nd => update_self n nd (s.looks ms).node
        refine ⟨n :: A, hl3.arm (fun hm => hnXA (mem_append_right _ hm)) ?_ ?_
          fun m hm => ⟨hm, hne m hm⟩, le_refl _, le_refl _, fun m hm => ?_,
          fun K hK hfit => .new (fun m hm => ?_) (arm_later hl3.inTime (hl3.reached hK) ?_)⟩
        · simp only [Timer.setNode, hself]
          exact hkey
        · simp only [Timer.setNode, hself]
          exact hslot
        · rw [(arm_node _ n).2.2.2 m (hne m hm)]
          exact (update_of_ne (hne m hm) ..).trans (hX m hm)
        · rw [(arm_node _ n).2.2.2 m (hneA m hm), Timer.setNode_of_ne _ (hneA m hm)]
          exact hE m hm
        · rw [Timer.setNode_self]
          exact hfit

/-- A node of the table that `AddTimer` can take for the key. -/
def Timer.HasRoom (s : Timer) (uiKey : Nat) : Prop :=
  (∀ n ∈ slots uiKey, s.keyNow n ≠ uiKey) ∧ ∃ n ∈ slots uiKey, s.keyNow n = 0

/-- The timer is set: it stands in the node `n`, with the data. -/
structure Timer.Armed (s s' : Timer) (uiKey n : Nat) (sData : List UInt8) : Prop where
  active : s'.active = n :: s.active
  slot : n ∈ slots uiKey
  key : (s'.node n).uiKey = uiKey
  data : (s'.node n).pDataPtr = some sData
  len : (s'.node n).uiDataLen = sData.length
  expire : (s'.node n).onExpire = true

variable {a : AddCall} {us : List Nat}

/-- `AddTimer` sets no timer when it finds no node, and for the key 0 it never does. -/
theorem addTimer_not_armed (h : a.uiKey ≠ 0 → ¬ s.HasRoom a.uiKey) :
    (s.addTimer a).1.active = s.active := by
  unfold addTimer
  split
  · rfl
  rw [hashTableSearchEx_eq]
  cases hfind : (slots a.uiKey).find? fun n => a.uiKey = s.keyNow n with
  | some n => rfl
  | none =>
    cases hfree : (slots a.uiKey).find? fun n => 0 = s.keyNow n with
    | none => rfl
    | some n =>
      obtain ⟨hslot, hk0, hkey⟩ := free_of_find hfind hfree
      refine absurd ⟨fun m hm he => ?_, n, hslot, hk0⟩ (h hkey)
      exact find?_eq_none.mp hfind m hm (decide_eq_true he.symm)

theorem addTimer_armed (hroom : s.HasRoom a.uiKey)
    (hsess : a.iSessDataLen ≤ sessDataLen) (hdata : a.sData ≠ []) (hmalloc : a.mallocOk = true)
    (hexp : a.onExpire = true) :
    ∃ n, Armed s (s.addTimer a).1 a.uiKey n a.sData := by
  obtain ⟨hno, n0, hn0, hk₀⟩ := hroom
  have hfind : (slots a.uiKey).find? (fun n => a.uiKey = s.keyNow n) = none :=
    find?_eq_none.mpr fun m hm he => hno m hm (of_decide_eq_true he).symm
  cases hfree : (slots a.uiKey).find? fun n => 0 = s.keyNow n with
  | none => exact absurd (decide_eq_true hk₀.symm) (find?_eq_none.mp hfree n0 hn0)
  | some n =>
    refine ⟨n, ?_⟩
    unfold addTimer
    rw [if_neg (not_lt.mpr hsess), hashTableSearchEx_eq, hfind, hfree]
    dsimp only [Option.none_or]
    rw [if_neg (by simp [hmalloc])]
    refine ⟨rfl, (free_of_find hfind hfree).1, ?_, ?_, ?_, ?_⟩ <;>
      simp [arm, internalAddTimer, listAdd, setNode, hdata, hexp]

theorem addTimer_no_malloc (hdata : a.sData ≠ []) (h : a.mallocOk = false) :
    (s.addTimer a).1.active = s.active := by
  unfold addTimer
  rw [hashTableSearchEx_eq]
  split
  · rfl
  cases (slots a.uiKey).find? fun n => a.uiKey = s.keyNow n with
  | some n => rfl
  | none =>
    cases (slots a.uiKey).find? fun n => 0 = s.keyNow n with
    | none => rfl
    | some n => simp [hdata, h, setNode, looks]

/-! ## Firing -/

/-- The clock readings `ts` never go back, from `t` on and up to `M`. -/
def Mono (M : Nat) : Nat → List Nat → Prop
  | t, [] => t ≤ M
  | t, u :: us => t ≤ u ∧ Mono M u us

theorem Mono.le : ∀ {t} {ts}, Mono M t ts → t ≤ M
  | _, [], h => h
  | _, _ :: _, h => le_trans h.1 h.2.le

theorem Mono.weaken {t' : Nat} : ∀ {t} {ts}, Mono M t ts → t' ≤ t → Mono M t' ts
  | _, [], h, ht => le_trans ht h
  | _, _ :: _, h, ht => ⟨le_trans ht h.1, h.2⟩

theorem Mono.skip {vs : List Nat} : ∀ {t} {us}, Mono M t (us ++ vs) → Mono M t vs
  | _, [], h => h
  | _, _ :: _, h => h.2.skip.weaken h.1

/-- The clock readings of a callback. -/
def Timer.Callback.times (cb : Callback) : List Nat :=
  cb.adds.map AddCall.now ++ (cb.rearm.map Rearm.now).toList

/-- The timers of a callback have timeouts whose microseconds fit. -/
def Timer.Callback.Fits (cb : Callback) : Prop :=
  (∀ a ∈ cb.adds, FitsUs a.uiTimeOut) ∧ FitsUs cb.uiTimeOut

theorem Live.adds : ∀ (adds : List AddCall) s A,
    Live b t M T c X A s → Mono M s.qwCurTime (adds.map AddCall.now ++ us) →
    ∃ s' A', adds.foldl (fun s a => (s.addTimer a).1) s = s' ∧ Live b t M T c X A' s' ∧
      A'.length ≤ A.length + adds.length ∧ Mono M s'.qwCurTime us ∧
      (∀ n ∈ X, s'.node n = s.node n) ∧
      ∀ K, b + K * checkInvlUs ≤ t → (∀ a ∈ adds, FitsUs a.uiTimeOut) → Fired K [] A s A' s' := by
  intro adds
  induction adds with
  | nil =>
    exact fun s A h hm => ⟨s, A, rfl, h, le_refl _, hm, fun _ _ => rfl,
      fun _ _ _ => .same fun _ _ => rfl⟩
  | cons a adds ih =>
    intro s A h hm
    obtain ⟨A1, h1, hlen, hcur, hX, hF⟩ := h.addTimer a hm.1 hm.2.le
    obtain ⟨s', A', he, h', hlen', hm', hX', hF'⟩ := ih _ A1 h1 (hm.2.weaken hcur)
    refine ⟨s', A', he, h', ?_, hm', fun n hn => (hX' n hn).trans (hX n hn), fun K hK hfit => ?_⟩
    · rw [length_cons]
      omega
    · exact (hF K hK (hfit a mem_cons_self)).trans
        (hF' K hK fun a' ha' => hfit a' (mem_cons_of_mem _ ha'))

section

variable (h : Live b t M T c [n] A s)
include h

/-- **UpdateTimer within a callback.** -/
theorem Live.updateTimer (a : Rearm) (h1 : s.qwCurTime ≤ a.now) (h2 : a.now ≤ M) :
    ∃ s' ret A', s.updateTimer n a = (s', ret) ∧ s'.qwCurTime ≤ a.now ∧ A'.length ≤ A.length + 1 ∧
      ((ret = 0 ∧ Live b t M T c [] A' s') ∨ (ret ≠ 0 ∧ Live b t M T c [n] A' s')) ∧
      ∀ K, b + K * checkInvlUs ≤ t → FitsUs (s.node n).uiTimeOut → Fired K [] A s A' s' := by
  have hne : ∀ m ∈ A, m ≠ n := fun m hm he => h.disj n mem_cons_self (he ▸ hm)
  unfold Timer.updateTimer
  split
  · exact ⟨_, _, A, rfl, h1, Nat.le_succ _, .inr ⟨by decide, h.setFields n _ rfl rfl rfl rfl⟩,
      fun _ _ _ => .same fun m hm => by rw [setNode_of_ne _ (hne m hm)]⟩
  have h3 : Live b t M T c [n] A { s with qwCurTime := a.now } :=
    h.frame ⟨rfl, rfl, rfl, rfl, rfl, rfl, rfl, rfl, h1, fun _ _ => rfl⟩ rfl h2
  have h4 := h3.setFields n { s.node n with
    pDataPtr := if a.sData = [] then none else some a.sData } rfl rfl rfl rfl
  have hn := h4.held n mem_cons_self
  refine ⟨_, _, n :: A, rfl, le_refl _, le_refl _, .inl ⟨rfl,
    h4.arm (h.disj n mem_cons_self) hn.key hn.slot (by simp)⟩, fun K hK hfit =>
      .new (fun m hm => ?_) (arm_later h4.inTime (h4.reached hK) ?_)⟩
  · rw [(arm_node _ n).2.2.2 m (hne m hm), setNode_of_ne _ (hne m hm)]
  · rw [setNode_self]
    exact hfit

/-- What a callback does with its own node `n`: the timer is set again, or the
node is left for the caller to clear. -/
theorem Live.callback (cb : Callback) (hm : Mono M s.qwCurTime (cb.times ++ us)) :
    ∃ s' ret A', s.callback n cb = (s', ret) ∧ A'.length ≤ A.length + cb.adds.length + 1 ∧
      Mono M s'.qwCurTime us ∧
      ((ret = 1 ∧ Live b t M T c [] A' s') ∨ (ret ≠ 1 ∧ Live b t M T c [n] A' s')) ∧
      ∀ K, b + K * checkInvlUs ≤ t → cb.Fits → Fired K [] A s A' s' := by
  rw [Callback.times, append_assoc] at hm
  obtain ⟨s1, A1, he, h1, hlen, hm1, hX, hF⟩ := Live.adds cb.adds s A h hm
  have h2 := h1.setFields n { s1.node n with uiTimeOut := cb.uiTimeOut } rfl rfl rfl rfl
  have hne : ∀ m ∈ A1, m ≠ n := fun m hm he => h1.disj n mem_cons_self (he ▸ hm)
  have hF2 : ∀ K, Fired K [] A1 s1 A1 (s1.setNode n { s1.node n with uiTimeOut := cb.uiTimeOut }) :=
    fun K => .same fun m hm => by rw [setNode_of_ne _ (hne m hm)]
  rw [Timer.callback, he]
  cases hre : cb.rearm with
  | none =>
    rw [hre] at hm1
    exact ⟨_, 0, A1, rfl, by omega, hm1, .inr ⟨by decide, h2⟩,
      fun K hK hfit => (hF K hK hfit.1).trans (hF2 K)⟩
  | some a =>
    rw [hre] at hm1
    obtain ⟨hle, hm2⟩ := hm1
    obtain ⟨s', ret, A', hu, hcur, hlen', hl, hF'⟩ := h2.updateTimer a hle hm2.le
    have hF3 : ∀ K, b + K * checkInvlUs ≤ t → cb.Fits → Fired K [] A s A' s' := fun K hK hfit =>
      ((hF K hK hfit.1).trans (hF2 K)).trans (hF' K hK (by rw [setNode_self]; exact hfit.2))
    rcases hl with ⟨rfl, h3⟩ | ⟨hret, h3⟩
    · refine ⟨s', 1, A', ?_, by omega, hm2.weaken hcur, .inl ⟨rfl, h3⟩, hF3⟩
      simp [hu]
    · refine ⟨s', 0, A', ?_, by omega, hm2.weaken hcur, .inr ⟨by decide, h3⟩, hF3⟩
      simp [hu, if_neg hret]

theorem Live.clearNode : Live b t M T c [] A (s.clearNode n) := by
  have hnA : n ∉ A := h.disj n mem_cons_self
  obtain ⟨lists, hi⟩ := h.inv
  have hnode : ∀ m ∈ A, (s.clearNode n).node m = s.node m := fun m hm => by
    refine update_of_ne ?_ _ _
    rintro rfl
    exact hnA hm
  have hcell : ∀ i, ∀ y ∈ hd i :: (lists i).map Ptr.node, y ≠ .node n := by
    rintro i y hy rfl
    exact hnA ((hi.mem n).mpr ⟨i, mem_ring_node.mp hy⟩)
  refine { h with inv := ⟨lists, ?_⟩, disj := by simp, held := fun m hm => ?_ }
  · exact { hi with
      fam := hi.fam.congr fun i _ y hy =>
        ⟨update_of_ne (hcell i y hy) .., update_of_ne (hcell i y hy) ..⟩
      placed := fun i m hm => by
        rw [hnode m ((hi.mem m).mpr ⟨i, hm⟩)]
        exact hi.placed i m hm
      node := fun m hm => (hi.node m hm).congr (hnode m hm) rfl rfl }
  · have hmA : m ∈ A := by simpa using hm
    exact (h.held m (mem_append_right _ hmA)).congr (hnode m hmA) rfl

/-- **Firing.** The node of a fired timer is on the wheel again or cleared. -/
theorem Live.fire (cb : Callback) (hm : Mono M s.qwCurTime (cb.times ++ us)) :
    ∃ A', Live b t M T c [] A' (s.fire n cb) ∧ A'.length ≤ A.length + cb.adds.length + 1 ∧
      Mono M (s.fire n cb).qwCurTime us ∧
      ∀ K, b + K * checkInvlUs ≤ t → cb.Fits → Fired K [] A s A' (s.fire n cb) := by
  have hclear : ∀ {s} {A} K, Live b t M T c [n] A s →
      Fired K [] A s A (s.clearNode n) := fun K hl => .same fun m hm => by
    have hmn : m ≠ n := fun he => hl.disj n mem_cons_self (he ▸ hm)
    exact congrArg TimerNode.uiExpire (update_of_ne hmn ..)
  by_cases hx : (s.node n).onExpire = true
  · obtain ⟨s', ret, A', he, hlen, hm', hl, hF⟩ := h.callback cb hm
    rw [Timer.fire, if_pos hx, he]
    rcases hl with ⟨rfl, hl⟩ | ⟨hr, hl⟩
    · exact ⟨A', hl, hlen, hm', hF⟩
    · simp only [if_pos hr]
      exact ⟨A', hl.clearNode, hlen, hm', fun K hK hfit => (hF K hK hfit).trans (hclear K hl)⟩
  · rw [Timer.fire, if_neg hx]
    exact ⟨A, h.clearNode, by omega, hm.skip, fun K _ _ => hclear K h⟩

end

/-! ## The list of a tick -/

/-- The clock readings and the number of new timers that a list of callbacks
brings. -/
def cbTimes (cbs : List Callback) : List Nat := cbs.flatMap Callback.times

def cbAdds (cbs : List Callback) : Nat := (cbs.map fun cb => cb.adds.length).sum

theorem cb_uncons (cbs : List Callback) :
    cbTimes cbs = (cbs.headD default).times ++ cbTimes cbs.tail ∧
      cbAdds cbs = (cbs.headD default).adds.length + cbAdds cbs.tail := by
  cases cbs with
  | nil => exact ⟨rfl, rfl⟩
  | cons cb cbs => simp [cbTimes, cbAdds]

/-- The first node of the current list is due: its expire time has come, up to
one check interval. -/
theorem Live.due (h : Live b t M T c [] A s) (hT : b + T * checkInvlUs ≤ t)
    (hn : s.pstNext (.head 0 s.tv1Index) = .node n) :
    n ∈ A ∧ (s.node n).uiExpire ≤ T ∧ ¬ (s.qwCurTime < (s.node n).qwExpireTime ∧
      checkInvlUs < (s.node n).qwExpireTime - s.qwCurTime) := by
  obtain ⟨lists, hi⟩ := h.inv
  have hr := hi.fam.ring (0, s.tv1Index) trivial
  have hmem : n ∈ lists (0, s.tv1Index) := by
    have := hr.next_mem mem_cons_self
    rw [show s.pstNext (hd (0, s.tv1Index)) = .node n from hn] at this
    exact mem_ring_node.mp this
  have hnA := (hi.mem n).mpr ⟨_, hmem⟩
  have hE : (s.node n).uiExpire ≤ T := by
    have htv := hi.tv1
    rw [← h.tick]
    rcases hi.placed _ n hmem with ⟨-, hp⟩ | ⟨hp, -⟩
    · omega
    · simp at hp
  refine ⟨hnA, hE, fun ⟨h1, h2⟩ => ?_⟩
  obtain ⟨-, -, -, hb, hx, -⟩ := hi.node n hnA
  have := h.since
  rw [hx, h.base] at hE
  simp only [checkInvlUs] at *
  omega

theorem Live.getTimerData (h : Live b t M T c X A s) (hn : n ∈ X) :
    ∃ s' d, s.getTimerData (s.node n).uiKey = (s', some d) ∧ Live b t M T c X A s' ∧
      s'.qwCurTime = s.qwCurTime ∧ ∀ m, (s'.node m).uiExpire = (s.node m).uiExpire := by
  have hnXA : n ∈ X ++ A := mem_append_left _ hn
  rw [Timer.getTimerData, Timer.hashTableSearch_eq]
  generalize seen s.keyNow (s.node n).uiKey (slots (s.node n).uiKey) = ms
  have hl1 : Live b t M T c X A (s.looks ms) := h.frame (h.clean.looks ms) rfl h.cur
  cases hfind : (slots (s.node n).uiKey).find? fun m => (s.node n).uiKey = s.keyNow m with
  | none =>
    have hkey := s.uiKey_looks (mem_singleton_self n)
    rw [(h.clean.looks [n]).node n hnXA] at hkey
    exact absurd (decide_eq_true hkey) (find?_eq_none.mp hfind n (h.held n hnXA).slot)
  | some m =>
    refine ⟨_, _, rfl, hl1.setFields m _ rfl rfl rfl rfl, rfl, fun k => ?_⟩
    rw [← s.uiExpire_looks ms k]
    by_cases hkm : k = m
    · subst hkm
      rw [setNode_self]
    · rw [setNode_of_ne _ hkm]

/-- A search does not look at the ghost list. -/
theorem getTimerData_active (key : Nat) (Z : List Nat) (s : Timer) :
    ({ s with active := Z } : Timer).getTimerData key =
      ({ (s.getTimerData key).1 with active := Z }, (s.getTimerData key).2) := by
  simp only [getTimerData, hashTableSearch_eq]
  have hkey : ({ s with active := Z } : Timer).keyNow = s.keyNow := rfl
  rw [hkey]
  cases (slots key).find? fun n => key = s.keyNow n <;> rfl

theorem getTimerData_ghost {key : Nat} {Z : List Nat} {d : List UInt8}
    (h : ({ s with active := Z } : Timer).getTimerData key = (s', some d)) :
    ∃ s1, s.getTimerData key = (s1, some d) ∧ s1.active = s.active ∧
      s' = { s1 with active := Z } := by
  have hself : s.getTimerData key =
      ({ (s.getTimerData key).1 with active := s.active }, (s.getTimerData key).2) :=
    getTimerData_active key s.active s
  rw [getTimerData_active] at h
  obtain ⟨h1, h2⟩ := Prod.mk.inj h
  exact ⟨_, Prod.ext rfl h2, congrArg (fun r => r.1.active) hself, h1.symm⟩

theorem Live.take (h : Live b t M T c [] A s) (hn : n ∈ A) :
    ∃ s1 s2 d, s.listDel (.node n) = some s1 ∧ SameTimers s s1 ∧
      ({ s1 with uiCount := dec32 s1.uiCount } : Timer).getTimerData (s.node n).uiKey =
        (s2, some d) ∧ s2.active = A ∧ s2.qwCurTime = s.qwCurTime ∧
      Live b t M T c [n] (A.erase n) { s2 with active := A.erase n } ∧
      ∀ K, (s.node n).uiExpire ≤ K →
        Fired K [n] A s (A.erase n) { s2 with active := A.erase n } := by
  obtain ⟨lists, hi⟩ := h.inv
  obtain ⟨s1, hdel, hs, hi1⟩ := hi.del hn
  have hheld : ∀ m ∈ A, Held M { s1 with uiCount := dec32 s1.uiCount, active := A.erase n } m :=
    fun m hm => (h.held m hm).congr (congrFun hs.node m) hs.pid
  have h1 : Live b t M T c [n] (A.erase n)
      { s1 with uiCount := dec32 s1.uiCount, active := A.erase n } :=
    { inv := ⟨_, hi1.frame ⟨rfl, rfl, rfl, rfl, rfl, rfl, rfl, rfl, le_refl _, fun _ _ => rfl⟩⟩
      disj := fun m hm hmA => (hi.nodup.mem_erase_iff.mp hmA).1 (mem_singleton.mp hm)
      held := fun m hm => by
        rcases mem_cons.mp hm with rfl | hm
        · exact hheld m hn
        · exact hheld m (mem_of_mem_erase hm)
      active := rfl
      since := hs.cur ▸ h.since
      cur := hs.cur ▸ h.cur
      recent := h.recent
      time := hs.base ▸ h.time
      tick := hs.check.trans h.tick
      base := hs.base.trans h.base }
  obtain ⟨s', d, hget, h', hcur, hexp⟩ := h1.getTimerData mem_cons_self
  obtain ⟨s2, hget2, hact, rfl⟩ := getTimerData_ghost
    (s := { s1 with uiCount := dec32 s1.uiCount }) hget
  refine ⟨s1, s2, d, hdel, hs, ?_, hact.trans (hs.active.trans h.active), hcur.trans hs.cur, h',
    fun K hK => ?_⟩
  · rw [← hs.node]
    exact hget2
  have hE : ∀ m, (s2.node m).uiExpire = (s.node m).uiExpire := fun m =>
    (hexp m).trans (congrArg TimerNode.uiExpire (congrFun hs.node m))
  exact
  { due := fun m hm => by
      obtain rfl := mem_singleton.mp hm
      exact ⟨hn, hK⟩
    nodup := nodup_singleton n
    kept := fun m hm hF =>
      ⟨hi.nodup.mem_erase_iff.mpr ⟨fun he => hF (he ▸ mem_singleton_self _), hm⟩, hE m⟩
    fresh := fun m hm => by
      obtain ⟨hne, hmA⟩ := hi.nodup.mem_erase_iff.mp hm
      exact .inl ⟨hmA, fun hF => hne (mem_singleton.mp hF)⟩ }

theorem fits_uncons {cbs : List Callback} (h : ∀ cb ∈ cbs, cb.Fits) :
    (cbs.headD default).Fits ∧ ∀ cb ∈ cbs.tail, cb.Fits := by
  cases cbs with
  | nil => exact ⟨⟨fun a ha => (by cases ha), by decide⟩, fun cb hcb => (by cases hcb)⟩
  | cons cb cbs =>
    exact ⟨h cb mem_cons_self, fun cb' h' => h cb' (mem_cons_of_mem _ h')⟩

theorem Live.nodup (h : Live b t M T c X A s) : A.Nodup := by
  obtain ⟨lists, hi⟩ := h.inv
  exact hi.nodup

/-! ## Nodes with a key -/

/-- Every node with a key is on the wheel or was given out by `GetTimer`, but the nodes `Z`. -/
def Keyed (Z : List Nat) (s : Timer) : Prop :=
  ∀ n, (s.node n).uiKey ≠ 0 → n ∈ Z ∨ n ∈ s.active ∨ n ∈ s.given

namespace Keyed

variable {Z : List Nat}

theorem arm (h : Keyed (n :: Z) s) : Keyed Z (s.arm n) := fun m hm => by
  by_cases hmn : m = n
  · exact .inr (.inl (hmn ▸ mem_cons_self))
  rw [(arm_node s n).2.2.2 m hmn] at hm
  rcases h m hm with hz | ha | hg
  · exact .inl ((mem_cons.mp hz).resolve_left hmn)
  · exact .inr (.inl (mem_cons_of_mem _ ha))
  · exact .inr (.inr hg)

section

variable (h : Keyed Z s)
include h

theorem of_key (hk : ∀ m, (s'.node m).uiKey = (s.node m).uiKey ∨ (s'.node m).uiKey = 0)
    (ha : s'.active = s.active) (hg : s'.given = s.given) : Keyed Z s' := fun m hm => by
  rw [ha, hg]
  exact h m ((hk m).resolve_right hm ▸ hm)

theorem looks (ms : List Nat) : Keyed Z (s.looks ms) := h.of_key (fun m => by
  simp only [Timer.looks]
  split
  · exact s.keyNow_cases m
  · exact .inl rfl) rfl rfl

theorem setNode (n : Nat) (nd : TimerNode) : Keyed (n :: Z) (s.setNode n nd) := fun m hm => by
  by_cases hmn : m = n
  · exact .inl (hmn ▸ mem_cons_self)
  · rw [setNode_of_ne s hmn] at hm
    exact (h m hm).imp_left (mem_cons_of_mem _)

theorem setFields {nd : TimerNode} (hk : nd.uiKey = (s.node n).uiKey ∨ nd.uiKey = 0) :
    Keyed Z (s.setNode n nd) := h.of_key (fun m => by
  by_cases hmn : m = n
  · rw [hmn, setNode_self]
    exact hk
  · exact .inl (by rw [setNode_of_ne s hmn])) rfl rfl

theorem addTimer (a : AddCall) : Keyed Z (s.addTimer a).1 := by
  unfold Timer.addTimer
  split
  · exact h
  rw [hashTableSearchEx_eq]
  have h1 := h.looks (seen s.keyNow a.uiKey (slots a.uiKey))
  cases (slots a.uiKey).find? fun n => a.uiKey = s.keyNow n with
  | some n => exact h1
  | none =>
    cases (slots a.uiKey).find? fun n => 0 = s.keyNow n with
    | none => exact h1
    | some n =>
      simp only [Option.none_or]
      split
      · exact h1.setFields (.inl rfl)
      · exact arm (setNode (s := { Timer.looks s _ with qwCurTime := a.now }) h1 n _)

theorem getTimerData (key : Nat) : Keyed Z (s.getTimerData key).1 := by
  rw [Timer.getTimerData, hashTableSearch_eq]
  have h1 := h.looks (seen s.keyNow key (slots key))
  cases (slots key).find? fun n => key = s.keyNow n with
  | none => exact h1
  | some n => exact h1.setFields (.inl rfl)

end

theorem erase (h : Keyed Z s) : Keyed (n :: Z) { s with active := s.active.erase n } := fun m hm => by
  rcases h m hm with hz | ha | hg
  · exact .inl (mem_cons_of_mem _ hz)
  · by_cases hmn : m = n
    · exact .inl (hmn ▸ mem_cons_self)
    · exact .inr (.inl ((mem_erase_of_ne hmn).mpr ha))
  · exact .inr (.inr hg)

theorem clearNode (h : Keyed (n :: Z) s) : Keyed Z (s.clearNode n) := fun m hm => by
  have hmn : m ≠ n := fun he => hm (by rw [he, Timer.clearNode, setNode_self]; rfl)
  rw [Timer.clearNode, setNode_of_ne s hmn] at hm
  exact (h m hm).imp_left fun hz => (mem_cons.mp hz).resolve_left hmn

theorem updateTimer (h : Keyed (n :: Z) s) (a : Rearm) :
    Keyed (if (s.updateTimer n a).2 = 0 then Z else n :: Z) (s.updateTimer n a).1 := by
  unfold Timer.updateTimer
  split
  · exact h.setFields (.inl rfl)
  · exact arm (setFields (s := { s with qwCurTime := a.now }) h (.inl rfl))

theorem callback (h : Keyed (n :: Z) s) (cb : Callback) :
    Keyed (if (s.callback n cb).2 = 1 then Z else n :: Z) (s.callback n cb).1 := by
  have h1 : Keyed (n :: Z) (cb.adds.foldl (fun s a => (s.addTimer a).1) s) :=
    foldlRecOn cb.adds _ h fun _ hs a _ => hs.addTimer a
  rw [Timer.callback]
  generalize cb.adds.foldl (fun s a => (s.addTimer a).1) s = s1 at h1
  have h2 : Keyed (n :: Z) (s1.setNode n { s1.node n with uiTimeOut := cb.uiTimeOut }) :=
    h1.setFields (.inl rfl)
  cases cb.rearm with
  | none => exact h2
  | some a =>
    have h3 := h2.updateTimer a
    split at h3
    case isTrue h0 => simpa [h0] using h3
    case isFalse h0 => simpa [h0] using h3

/-- The node of a timer that fires is set again or has its key cleared. -/
theorem fire (h : Keyed (n :: Z) s) (cb : Callback) : Keyed Z (s.fire n cb) := by
  unfold Timer.fire
  have h1 : ∀ r, r = (if (s.node n).onExpire then s.callback n cb else (s, 0)) →
      Keyed (if r.2 = 1 then Z else n :: Z) r.1 := by
    rintro _ rfl
    split
    · exact h.callback cb
    · exact h
  generalize (if (s.node n).onExpire then s.callback n cb else (s, 0)) = r at h1
  replace h1 := h1 r rfl
  split at h1
  case isTrue h0 => simpa [h0] using h1
  case isFalse h0 => simpa [h0] using h1.clearNode

end Keyed

/-- What the loop over the list of a tick did: `F` fired, all due at the tick. When
fewer are due in the whole call than the loop may fire, it came to the end of the
list. -/
structure TickFired (K T r : Nat) (F A : List Nat) (s : Timer) (A' : List Nat) (s' : Timer)
    (e : TickEnd) : Prop where
  fired : Fired K F A s A' s'
  onTick : ∀ m ∈ F, (s.node m).uiExpire ≤ T
  ends : dueCount K A s < r → ∃ r' cbs', e = .listEmpty r' cbs' ∧ r = r' + F.length ∧
    ∀ cb ∈ cbs', cb.Fits

/-- **The list of a tick.** Every round fires the first node of the list; the
loop ends with the list empty, or early with the rest of the list in place. -/
theorem Live.runNodes (hT : b + T * checkInvlUs ≤ t) :
    ∀ r cbs s A,
      Live b t M T c [] A s → Mono M s.qwCurTime (cbTimes cbs) →
      ∃ s' e A', s.runNodes r cbs = some (s', e) ∧ Live b t M T c [] A' s' ∧
        (Keyed [] s → Keyed [] s') ∧
        (∀ r' cbs', e = .listEmpty r' cbs' → Mono M s'.qwCurTime (cbTimes cbs') ∧
          A'.length + cbAdds cbs' ≤ A.length + cbAdds cbs ∧
          s'.pstNext (.head 0 s'.tv1Index) = .head 0 s'.tv1Index) ∧
        ∀ K, T ≤ K → b + K * checkInvlUs ≤ t → (∀ cb ∈ cbs, cb.Fits) →
          TickFired K T r (s.firedNodes r cbs) A s A' s' e := by
  intro r
  induction r with
  | zero =>
    exact fun cbs s A h _ => ⟨s, .broken, A, rfl, h, id, by simp, fun K _ _ _ =>
      ⟨.same fun _ _ => rfl, by simp [firedNodes], by simp⟩⟩
  | succ r ih =>
    intro cbs s A h hm
    rw [Timer.runNodes, Timer.firedNodes]
    by_cases he : s.pstNext (.head 0 s.tv1Index) = .head 0 s.tv1Index
    · rw [if_pos he, he]
      refine ⟨s, _, A, rfl, h, id, fun r' cbs' hcb => ?_, fun K _ _ hfit =>
        ⟨.same fun _ _ => rfl, by simp, fun _ => ⟨r + 1, cbs, rfl, rfl, hfit⟩⟩⟩
      obtain ⟨-, rfl⟩ := TickEnd.listEmpty.inj hcb
      exact ⟨hm, le_refl _, he⟩
    · -- the list is not empty, so the head is followed by a node
      obtain ⟨n, hn⟩ : ∃ n, s.pstNext (.head 0 s.tv1Index) = .node n := by
        obtain ⟨lists, hi⟩ := h.inv
        have := (hi.fam.ring (0, s.tv1Index) trivial).next_mem mem_cons_self
        obtain ⟨n, -, hn⟩ := mem_map.mp ((mem_cons.mp this).resolve_left he)
        exact ⟨n, hn.symm⟩
      obtain ⟨hnA, hnT, hdue⟩ := h.due hT hn
      obtain ⟨s1, s2, d, hdel, hs, hget, hact, hcur, h2, htake⟩ := h.take hnA
      obtain ⟨htimes, hadds⟩ := cb_uncons cbs
      rw [htimes, ← hcur] at hm
      obtain ⟨A', h3, hlen, hm3, hF3⟩ := h2.fire (cbs.headD default) hm
      obtain ⟨s', e, A'', hr, h4, hkeyed, hend, hF4⟩ := ih cbs.tail _ A' h3 hm3
      rw [← hs.node, ← hs.cur] at hdue
      rw [← hs.node] at hget
      rw [hn]
      simp only [hdel]
      rw [if_neg hdue, if_neg hdue, hget]
      simp only [hact]
      refine ⟨s', e, A'', hr, h4, fun hk => hkeyed (Keyed.fire ?_ _), fun r' cbs' hcb => ?_,
        fun K hTK hK hfit => ?_⟩
      · have hk2 : Keyed [] s2 := by
          have hk1 : Keyed [] { s1 with uiCount := dec32 s1.uiCount } :=
            hk.of_key (fun m => .inl (by rw [hs.node])) hs.active hs.given
          simpa only [hget] using hk1.getTimerData (s1.node n).uiKey
        exact hact ▸ hk2.erase
      · obtain ⟨g1, g2, g3⟩ := hend r' cbs' hcb
        have := length_erase_of_mem hnA
        have := length_pos_of_mem hnA
        exact ⟨g1, by omega, g3⟩
      · obtain ⟨hcb, hcbs⟩ := fits_uncons hfit
        have hone := (htake K (le_trans hnT hTK)).trans (hF3 K hK hcb)
        obtain ⟨hrest, hon, hends⟩ := hF4 K hTK hK hcbs
        refine ⟨hone.trans hrest, fun m hm => ?_, fun hlt => ?_⟩
        · rcases mem_cons.mp hm with rfl | hm
          · exact hnT
          · obtain ⟨hA', hmK⟩ := hrest.due m hm
            rw [← (hone.before hA' hmK).2.2]
            exact hon m hm
        · have hcount := hone.dueCount h3.nodup
          simp only [append_nil, length_singleton] at hcount
          obtain ⟨r', cbs', rfl, hr', hfit'⟩ := hends (by omega)
          exact ⟨r', cbs', rfl, by rw [length_cons]; omega, hfit'⟩

/-! ## The ticks of a call -/

section

variable (h : Live b t M T c [] A s)
include h

theorem Live.sameTimers {c' : Nat → Nat} {lists : Nat × Nat → List Nat} (hs : SameTimers s s')
    (hi : Inv (fun _ => True) s' c' lists A) : Live b t M T c' [] A s' where
  inv := ⟨lists, hi⟩
  disj := h.disj
  held n hn := (h.held n hn).congr (congrFun hs.node n) hs.pid
  active := hs.active.trans h.active
  since := hs.cur ▸ h.since
  cur := hs.cur ▸ h.cur
  recent := h.recent
  time := by rw [InTime]; exact hs.base ▸ h.time
  tick := hs.check.trans h.tick
  base := hs.base.trans h.base

theorem Live.cascade (hc : Cascaded T 1 c) (hA : A.length ≤ cascadeLimit) :
    ∃ s' c', (if s.tv1Index = 0 then s.cascadeLevels [1, 2, 3, 4] else some (s, true)) =
        some (s', true) ∧ Live b t M T c' [] A s' ∧ Done T c' ∧ SameTimers s s' := by
  obtain ⟨lists, hi⟩ := h.inv
  have htv := hi.tv1
  rw [h.tick] at htv
  split
  · rename_i h0
    obtain ⟨s', c', lists', hr, hs, hi', hd⟩ := Inv.cascadeLevels 4 1 s c lists rfl (le_refl 1)
      hi (h.tick ▸ hc) (fun _ => by rw [h.tick]; exact htv.symm.trans h0) hA
    exact ⟨s', c', hr, h.sameTimers hs hi', h.tick ▸ hd, hs⟩
  · rename_i h0
    exact ⟨s, c, rfl, h, hc.done (fun _ he => h0 (htv.trans he)) (le_refl 1), .refl s⟩

theorem Live.nextTick (hd : Done T c) (hT : T < 2147483648)
    (he : s.pstNext (.head 0 s.tv1Index) = .head 0 s.tv1Index) :
    Live b t M (T + 1) c [] A s.nextTick ∧ Cascaded (T + 1) 1 c := by
  obtain ⟨lists, hi⟩ := h.inv
  obtain rfl := h.tick
  obtain ⟨hi', htick, hc⟩ := hi.nextTick hd hT he
  refine ⟨⟨⟨lists, hi'⟩, h.disj, fun n hn => (h.held n hn).congr rfl rfl, h.active, h.since, h.cur,
    h.recent, h.time, htick, h.base⟩, hc⟩

theorem Live.later (hd : Done T c) (he : s.pstNext (.head 0 s.tv1Index) = .head 0 s.tv1Index) :
    ∀ m ∈ A, T < (s.node m).uiExpire := by
  obtain ⟨lists, hi⟩ := h.inv
  obtain rfl := h.tick
  exact hi.later hd he

end

/-- **RunTimerList.** From a tick whose cascade is still to be done the loop
comes to an end, at a tick whose cascade is to be done or is done. When fewer timers
are due than one call may fire, it goes on to the tick of the call, or until no timer
is left. -/
theorem Live.runTimerList {K : Nat} (hreach : b + K * checkInvlUs ≤ t) (hlt : K < 2147483648) :
    ∀ fuel r T cbs c s A,
      Live b t M T c [] A s → Cascaded T 1 c → Mono M s.qwCurTime (cbTimes cbs) →
      A.length + cbAdds cbs ≤ cascadeLimit → K + 1 - T ≤ fuel →
      ∃ s' T' c' A', s.runTimerList K fuel r cbs = some s' ∧ Live b t M T' c' [] A' s' ∧
        (Keyed [] s → Keyed [] s') ∧ (Cascaded T' 1 c' ∨ Done T' c') ∧
        ((∀ m ∈ A, T ≤ (s.node m).uiExpire) → (∀ cb ∈ cbs, cb.Fits) → dueCount K A s < r →
          Cascaded T' 1 c' ∧ T' ≤ max T (K + 1) ∧
            CallFired K (s.firedTicks K fuel r cbs) A s A' s') := by
  -- the loop ends: the tick of the call is behind, or the wheel is empty
  have hstop : ∀ {T} {c} {s} {A}, Live b t M T c [] A s →
      (∀ m ∈ A, T ≤ (s.node m).uiExpire) → ¬ (s.uiCheckTime ≤ K ∧ 0 < s.uiCount) →
      CallFired K [] A s A s := by
    intro T c s A h hlate hno
    refine ⟨.same fun _ _ => rfl, List.Pairwise.nil, fun m hm => ?_⟩
    obtain ⟨lists, hi⟩ := h.inv
    have hpos := length_pos_of_mem hm
    have hm' := hlate m hm
    rw [hi.count, h.tick] at hno
    omega
  intro fuel
  induction fuel with
  | zero =>
    intro r T cbs c s A h hc _ _ hf
    have hno : ¬ (s.uiCheckTime ≤ K ∧ 0 < s.uiCount) := by
      rw [h.tick]
      omega
    exact ⟨s, T, c, A, if_neg hno, h, id, .inl hc, fun hlate _ _ =>
      ⟨hc, le_max_left _ _, hstop h hlate hno⟩⟩
  | succ fuel ih =>
    intro r T cbs c s A h hc hm hA hf
    rw [runTimerList.eq_def, firedTicks]
    by_cases hloop : s.uiCheckTime ≤ K ∧ 0 < s.uiCount
    · simp only [if_pos hloop]
      rw [h.tick] at hloop
      have hT : b + T * checkInvlUs ≤ t := by
        have := Nat.mul_le_mul_right checkInvlUs hloop.1
        omega
      obtain ⟨s1, c1, hcas, h1, hd, hsame⟩ := h.cascade hc (by omega)
      have hnode : ∀ m, (s1.node m).uiExpire = (s.node m).uiExpire := fun m => by rw [hsame.node]
      have hdue1 : dueCount K A s1 = dueCount K A s := by simp only [dueCount, hnode]
      rw [hcas]
      obtain ⟨s2, e, A2, hrun, h2, hkeyed, hend, htick⟩ :=
        Live.runNodes hT r cbs s1 A h1 (hsame.cur ▸ hm)
      simp only [hrun]
      have hk1 : Keyed [] s → Keyed [] s2 := fun hk => hkeyed (hk.of_key
        (fun m => .inl (by rw [hsame.node])) hsame.active hsame.given)
      cases e with
      | broken =>
        refine ⟨s2, T, c1, A2, rfl, h2, hk1, .inr hd, fun _ hfit hdue => ?_⟩
        obtain ⟨_, _, he, -⟩ := (htick K hloop.1 hreach hfit).ends (hdue1 ▸ hdue)
        cases he
      | listEmpty r' cbs' =>
        obtain ⟨hm', hA', he⟩ := hend r' cbs' rfl
        have hlater := h2.later hd he
        obtain ⟨h3, hc3⟩ := h2.nextTick hd (by omega) he
        obtain ⟨s', T', c', A', hrun', h', hk', hc', hcall⟩ :=
          ih r' (T + 1) cbs' c1 s2.nextTick A2 h3 hc3 hm' (by omega) (by omega)
        refine ⟨s', T', c', A', hrun', h', fun hk => hk' (hk1 hk), hc', fun hlate hfit hdue => ?_⟩
        obtain ⟨hfired, hon, hends⟩ := htick K hloop.1 hreach hfit
        obtain ⟨_, _, heq, hr, hfit'⟩ := hends (hdue1 ▸ hdue)
        cases heq
        have hcount := hfired.dueCount h2.nodup
        obtain ⟨hc', hT', hcall⟩ := hcall hlater hfit' (show dueCount K A2 s2 < r' by omega)
        refine ⟨hc', by omega, ?_⟩
        have hnext : Fired K [] A2 s2 A2 s2.nextTick := .same fun m _ => rfl
        have hfirst := ((Fired.same fun m _ => hnode m).trans hfired).trans hnext
        rw [nil_append, append_nil] at hfirst
        refine CallFired.cons hfirst (fun m hmF => ?_) hlater hcall
        have hle := hon m hmF
        rw [hnode] at hle
        exact le_antisymm hle (hlate m (hfirst.due m hmF).1)
    · rw [if_neg hloop]
      exact ⟨s, T, c, A, if_neg hloop, h, id, .inl hc, fun hlate _ _ =>
        ⟨hc, le_max_left _ _, hstop h hlate hloop⟩⟩

end Live

end DesPwd.L2.TimerWheel
