import Mathlib.Data.List.TakeWhile

/-!
# Paging back through a ring

The entries of a ring by their age, from 0, the newest, to `n - 1`. A call goes from
the entry behind the last one it returned to older ones, at most one round: it stops
at an entry for which `stop` holds, returns one for which `hit` holds and passes the
others. Behind the oldest entry it starts again with the newest. A caller that pages
through the ring has to notice that itself: it ends when an entry is not below the
one before it in an order in which older entries are lower.

* `nextHit_cases`: what one call returns.
* `pages_eq`: all pages together are the hits in front of the first entry that stops.
-/
namespace DesPwd.BackWalk

open List

variable (n : Nat) (stop hit : Nat → Bool)

/-- One call, over `m` entries from age `p` on. -/
def nextHit : Nat → Nat → Option Nat
  | 0, _ => none
  | m + 1, p =>
    let a := if p = n then 0 else p
    if stop a then none
    else if hit a then some a
    else nextHit m (a + 1)

/-- The pages of a caller, at most `m` of them, from age `p` on; `prev` is the key of
the page before. -/
def pages (key : Nat → Nat) : Nat → Nat → Option Nat → List Nat
  | 0, _, _ => []
  | m + 1, p, prev =>
    match nextHit n stop hit n p with
    | none => []
    | some a => if prev.all (key a < ·) then a :: pages key m (a + 1) (some (key a)) else []

/-- The hits from age `p` on, in front of the first entry that stops. -/
def hits (p : Nat) : List Nat := ((List.range' p (n - p)).takeWhile fun a => !stop a).filter hit

variable {n} {stop hit} {p m : Nat}

theorem hits_of_stop (hp : p < n) (h : stop p = true) : hits n stop hit p = [] := by
  rw [hits, show n - p = n - (p + 1) + 1 by omega, range'_succ,
    takeWhile_cons_of_neg (by simp [h]), filter_nil]

theorem hits_of_hit (hp : p < n) (h : stop p = false) (hh : hit p = true) :
    hits n stop hit p = p :: hits n stop hit (p + 1) := by
  rw [hits, show n - p = n - (p + 1) + 1 by omega, range'_succ,
    takeWhile_cons_of_pos (by simp [h]), filter_cons_of_pos hh, hits]

theorem hits_of_miss (hp : p < n) (h : stop p = false) (hh : hit p = false) :
    hits n stop hit p = hits n stop hit (p + 1) := by
  rw [hits, show n - p = n - (p + 1) + 1 by omega, range'_succ,
    takeWhile_cons_of_pos (by simp [h]), filter_cons_of_neg (by simp [hh]), hits]

theorem hits_end (hp : n ≤ p) : hits n stop hit p = [] := by
  rw [hits, Nat.sub_eq_zero_of_le hp]
  rfl

theorem nextHit_succ (hp : p < n) : nextHit n stop hit (m + 1) p =
    if stop p then none else if hit p then some p else nextHit n stop hit m (p + 1) := by
  have ha : (if p = n then 0 else p) = p := if_neg (Nat.ne_of_lt hp)
  rw [nextHit, ha]

/-- Behind the oldest entry the walk is that from the newest. -/
theorem nextHit_end (hn : 0 < n) (m : Nat) :
    nextHit n stop hit m n = nextHit n stop hit m 0 := by
  cases m with
  | zero => rfl
  | succ m =>
    have ha : (if n = n then 0 else n) = 0 := if_pos rfl
    rw [nextHit_succ hn, nextHit, ha]

/-- A call that does not come to the oldest entry returns one of the `m` it goes
through. -/
theorem nextHit_mem : ∀ {p a}, p + m ≤ n →
    nextHit n stop hit m p = some a → p ≤ a ∧ a < p + m := by
  induction m with
  | zero => intro p a _ h; cases h
  | succ m ih =>
    intro p a hm h
    rw [nextHit_succ (by omega)] at h
    split at h
    · cases h
    split at h
    · cases h
      omega
    · obtain ⟨hlo, hhi⟩ := ih (by omega) h
      omega

theorem nextHit_lt (hn : 0 < n) : ∀ {p a}, p ≤ n →
    nextHit n stop hit m p = some a → a < n := by
  induction m with
  | zero => intro p a _ h; cases h
  | succ m ih =>
    intro p a hp h
    have hq : (if p = n then 0 else p) < n := by split <;> omega
    rw [nextHit] at h
    generalize (if p = n then 0 else p) = q at h hq
    split at h
    · cases h
    · split at h
      · cases h
        exact hq
      · exact ih hq h

theorem nextHit_not_stop : ∀ {p a}, nextHit n stop hit m p = some a → stop a = false := by
  induction m with
  | zero => intro p a h; cases h
  | succ m ih =>
    intro p a h
    rw [nextHit] at h
    generalize (if p = n then 0 else p) = q at h
    split at h
    · cases h
    rename_i hstop
    split at h
    · cases h
      simpa using hstop
    · exact ih h

/-- What a call returns that has `m` entries left up to the oldest and may then go
through `k` of the newest: the next hit, or, if there is none, none or one of these
`k`. -/
theorem nextHit_cases (stop hit : Nat → Bool) (hn : 0 < n) {k : Nat} (hk : k ≤ n) :
    ∀ {m p}, p + m = n →
    (∃ a, hits n stop hit p = a :: hits n stop hit (a + 1) ∧
      nextHit n stop hit (m + k) p = some a ∧ p ≤ a ∧ a < n ∧ stop a = false) ∨
    (hits n stop hit p = [] ∧ ∀ a, nextHit n stop hit (m + k) p = some a → a < k) := by
  intro m
  induction m with
  | zero =>
    intro p hp
    obtain rfl : p = n := hp
    right
    refine ⟨hits_end (Nat.le_refl p), fun a ha => ?_⟩
    rw [nextHit_end hn] at ha
    obtain ⟨-, hlt⟩ := nextHit_mem (by omega) ha
    omega
  | succ m ih =>
    intro p hp
    rw [show m + 1 + k = m + k + 1 by omega, nextHit_succ (by omega)]
    cases hs : stop p with
    | true =>
      right
      refine ⟨hits_of_stop (by omega) hs, fun a ha => ?_⟩
      cases ha
    | false =>
      rw [if_neg Bool.false_ne_true]
      cases hh : hit p with
      | true =>
        left
        exact ⟨p, hits_of_hit (by omega) hs hh, if_pos rfl, Nat.le_refl p, by omega, hs⟩
      | false =>
        rw [hits_of_miss (by omega) hs hh]
        rcases ih (show p + 1 + m = n by omega) with ⟨a, hhits, hnext, hpa, ha, hstop⟩ | h
        · exact .inl ⟨a, hhits, hnext, by omega, ha, hstop⟩
        · exact .inr h

/-- **Paging.** If older entries that do not stop have lower keys, a caller with enough
rounds gets the hits in front of the first entry that stops, each once. -/
theorem pages_eq (hn : 0 < n) {key : Nat → Nat}
    (hkey : ∀ i j, i < j → j < n → stop j = false → key j < key i) :
    ∀ m p, p ≤ n → n - p < m → ∀ prev, (p = 0 ∧ prev = none ∨
        ∃ q, p = q + 1 ∧ stop q = false ∧ prev = some (key q)) →
      pages n stop hit key m p prev = hits n stop hit p := by
  intro m
  induction m with
  | zero => omega
  | succ m ih =>
    intro p hp hm prev hprev
    have hcases := nextHit_cases stop hit hn hp (Nat.add_sub_cancel' hp)
    rw [Nat.sub_add_cancel hp] at hcases
    rw [pages]
    rcases hcases with ⟨a, hhits, hnext, hpa, ha, hstop⟩ | ⟨hhits, hlt⟩
    · have hround : n - (a + 1) < m := by
        omega
      have hbelow : prev.all (key a < ·) = true := by
        rcases hprev with ⟨-, rfl⟩ | ⟨q, rfl, -, rfl⟩
        · rfl
        · exact decide_eq_true (hkey q a (by omega) ha hstop)
      rw [hnext, hhits]
      dsimp only
      rw [if_pos hbelow, ih (a + 1) ha hround _ (.inr ⟨a, rfl, hstop, rfl⟩)]
    · rw [hhits]
      cases hnext : nextHit n stop hit n p with
      | none => rfl
      | some a =>
        -- an entry that is not older than the last page
        have hap := hlt a hnext
        rcases hprev with ⟨rfl, -⟩ | ⟨q, rfl, hq, rfl⟩
        · omega
        have hle : ¬ key a < key q := by
          by_cases haq : a = q
          · subst haq
            exact Nat.lt_irrefl _
          · have := hkey a q (by omega) (by omega) hq
            omega
        dsimp only
        rw [if_neg (by simpa using hle)]

/-- The hits, each by itself. -/
theorem hits_zero_eq : hits n stop hit 0 =
    (List.range n).filter fun k => decide (∀ i ≤ k, stop i = false) && hit k := by
  have htake : ∀ m, (List.range m).takeWhile (fun a => !stop a) =
      (List.range m).filter fun k => decide (∀ i ≤ k, stop i = false) := by
    intro m
    induction m with
    | zero => rfl
    | succ m ih =>
      rw [range_succ, filter_append, ← ih, takeWhile_append]
      by_cases hall : ∀ i < m, stop i = false
      · have hself : (List.range m).takeWhile (fun a => !stop a) = List.range m := by
          rw [ih, filter_eq_self]
          intro k hk
          have hkm := mem_range.mp hk
          exact decide_eq_true fun i hi => hall i (by omega)
        rw [hself]
        cases hs : stop m with
        | true =>
          have hno : ¬ ∀ i ≤ m, stop i = false := fun h => by
            have := h m (Nat.le_refl m)
            rw [hs] at this
            cases this
          simp [hs, hno]
        | false =>
          have hyes : ∀ i ≤ m, stop i = false := fun i hi => by
            rcases Nat.lt_or_eq_of_le hi with h | rfl
            · exact hall i h
            · exact hs
          have hfilter : [m].filter (fun k => decide (∀ i ≤ k, stop i = false)) = [m] :=
            filter_cons_of_pos (decide_eq_true hyes)
          rw [hfilter]
          simp [hs]
      · have hno : ¬ ∀ i ≤ m, stop i = false := fun h => hall fun i hi => h i (by omega)
        have hlen : ¬ ((List.range m).takeWhile (fun a => !stop a)).length = (List.range m).length := by
          intro hlen
          apply hall
          intro i hi
          have hself := ( takeWhile_prefix (fun a => !stop a)).eq_of_length hlen
          have hmem : i ∈ (List.range m).takeWhile (fun a => !stop a) := by
            rw [hself]
            exact mem_range.mpr hi
          have := mem_takeWhile_imp hmem
          simpa using this
        rw [if_neg hlen]
        simp [hno]
  rw [hits, ← range_eq_range', htake, filter_filter]
  congr 1
  funext k
  rw [Bool.and_comm]

end DesPwd.BackWalk
