import DesPwd.L2Machine.TimerWheelInv

/-!
# The timer wheel: cascading and ticking

At a tick that is a multiple of 256 the list of the next level that is due is
spread over the levels below. `CascadeTimers` walks that list while it relinks
its nodes; this is right as long as none of them goes back to the list that is
walked.

* `Inv.cascadeTimers`: so it is when the list is due at the current tick.
* `Inv.cascadeLevels`: the levels that are due at the tick are cascaded.
* `Inv.nextTick`: a tick whose list is empty may be left.
-/
namespace DesPwd.L2.TimerWheel

open Rings Links List
open Function (update update_self update_of_ne)

variable {s s' : Timer} {c : Nat → Nat} {lists : Nat × Nat → List Nat} {A : List Nat} {n : Nat}

/-- A node that is set keeps all its fields when it is linked elsewhere. -/
theorem sameTimers_internalAddTimer (h : NodeOk s n) : SameTimers s (s.internalAddTimer n) := by
  refine ⟨?_, rfl, rfl, rfl, rfl, rfl, rfl, rfl, rfl⟩
  rw [(frame_internalAddTimer s n).1, ← h.pid]
  exact Function.update_eq_self n s.node

/-! ## The walk -/

section Move

variable {i j : Nat × Nat} {rest : List Nat}

/-- The lists after the first node of the list `i` went to the list `j`. -/
theorem mem_move (hi : lists i = n :: rest) (hnd : n ∉ rest) (hij : j ≠ i)
    (hnl : ∀ k, k ≠ i → n ∉ lists k) (k : Nat × Nat) (m : Nat) :
    m ∈ update (addTo lists j n) i rest k ↔ (m ∈ lists k ∧ m ≠ n) ∨ (k = j ∧ m = n) := by
  by_cases hk : k = i
  · subst hk
    rw [update_self, hi]
    constructor
    · exact fun hm => .inl ⟨mem_cons_of_mem _ hm, fun he => hnd (he ▸ hm)⟩
    · rintro (⟨hm, hne⟩ | ⟨hk, -⟩)
      · exact (mem_cons.mp hm).resolve_left hne
      · exact absurd hk.symm hij
  · rw [update_of_ne hk, mem_addTo]
    constructor
    · rintro (hm | hm)
      · exact .inl ⟨hm, fun he => hnl k hk (he ▸ hm)⟩
      · exact .inr hm
    · exact Or.imp_left And.left

theorem nodup_move (hnd : ∀ k, (lists k).Nodup) (hrest : rest.Nodup)
    (hnl : ∀ k, k ≠ i → n ∉ lists k) (k : Nat × Nat) :
    (update (addTo lists j n) i rest k).Nodup := by
  by_cases hk : k = i
  · subst hk
    rw [update_self]
    exact hrest
  · rw [update_of_ne hk]
    exact nodup_addTo (hnd k) (hnl k hk) j

/-- Linking `n` writes links of `n` and of cells on the list `j` only. -/
theorem Inv.walk_internalAddTimer (h : Inv (· ≠ i) s c lists A)
    (hv : s.vec (s.node n).uiExpire = j) (hij : j ≠ i) (hn : n ∉ rest)
    (hrest : ∀ m ∈ rest, m ∈ lists i) {cur : Ptr}
    (hw : Linked s.pstNext (hd i) cur (rest.map Ptr.node)) :
    Linked (s.internalAddTimer n).pstNext (hd i) cur (rest.map Ptr.node) := by
  refine hw.congr fun y hy => ?_
  obtain ⟨m, hm, rfl⟩ := mem_map.mp hy
  have hr := h.fam.ring j hij
  rw [internalAddTimer_next, hv, update_of_ne, update_of_ne]
  · intro he
    cases he
    exact hn hm
  · intro he
    have := hr.prev_mem mem_cons_self
    rw [← he] at this
    exact hij (h.uniq j i m (mem_ring_node.mp this) (hrest m hm))

end Move

variable {i : Nat × Nat} {T k : Nat}

/-- One round of the walk: the first node of the list `i` goes to the list `j`
of its place, and the rest of the walk is as it was. -/
theorem Inv.relink {j : Nat × Nat} {rest : List Nat} (h : Inv (· ≠ i) s c lists A)
    (hi : lists i = n :: rest) (hv : s.vec (s.node n).uiExpire = j) (hij : j ≠ i)
    (hw : Linked s.pstNext (hd i) (s.pstNext (.node n)) (rest.map Ptr.node)) :
    Inv (· ≠ i) (s.internalAddTimer n) c (update (addTo lists j n) i rest) A ∧
      Linked (s.internalAddTimer n).pstNext (hd i) (s.pstNext (.node n)) (rest.map Ptr.node) := by
  have hni : n ∈ lists i := by rw [hi]; exact mem_cons_self
  have hnA : n ∈ A := (h.mem n).mpr ⟨i, hni⟩
  have hok := h.node n hnA
  have hsame := sameTimers_internalAddTimer hok
  have hnd : n ∉ rest ∧ rest.Nodup := by
    have := h.nd i
    rw [hi] at this
    exact nodup_cons.mp this
  have hrest : ∀ m ∈ rest, m ∈ lists i := fun m hm => by
    rw [hi]
    exact mem_cons_of_mem _ hm
  have hnl : ∀ k, k ≠ i → n ∉ lists k := fun k hk hm => hk (h.uniq k i n hm hni)
  have hmem := mem_move hi hnd.1 hij hnl
  have hplace : Placed s.uiCheckTime c (s.node n).uiExpire j :=
    hv ▸ placed_vec h.time hok.bound h.tv1 h.level
  constructor
  · exact { h with
      fam := fam_internalAddTimer h.fam hv hij hnl
        ((update_of_ne hij ..).trans (update_self ..)) fun k hk hkj =>
          (update_of_ne hk ..).trans (update_of_ne hkj ..)
      nd := nodup_move h.nd hnd.2 hnl
      uniq := fun k l m hk hl => by
        rcases (hmem k m).mp hk with ⟨hk, hne⟩ | ⟨hk, he⟩ <;>
          rcases (hmem l m).mp hl with ⟨hl, hne'⟩ | ⟨hl, he'⟩
        · exact h.uniq k l m hk hl
        · omega
        · omega
        · exact hk.trans hl.symm
      mem := fun m => by
        rw [h.mem]
        simp only [hmem]
        by_cases hmn : m = n
        · subst hmn
          exact ⟨fun _ => ⟨j, .inr ⟨rfl, rfl⟩⟩, fun _ => ⟨i, hni⟩⟩
        · simp [hmn]
      placed := fun k m hm => by
        rw [hsame.node]
        rcases (hmem k m).mp hm with ⟨hm, -⟩ | ⟨rfl, rfl⟩
        · exact h.placed k m hm
        · exact hplace
      node := fun m hm => (h.node m hm).congr (by rw [hsame.node]) hsame.base hsame.pid }
  · exact h.walk_internalAddTimer hv hij hnd.1 hrest hw

/-- The walk of `CascadeTimers` over a list whose nodes all go elsewhere. -/
theorem Inv.cascadeLoop : ∀ rest r cur s
    lists, Inv (· ≠ i) s c lists A → lists i = rest → rest.length ≤ r →
    Linked s.pstNext (hd i) cur (rest.map Ptr.node) →
    (∀ m ∈ rest, s.vec (s.node m).uiExpire ≠ i) →
    ∃ s' lists', Timer.cascadeLoop (hd i) r cur s = some (s', true) ∧ SameTimers s s' ∧
      s'.tvIndex = s.tvIndex ∧ Inv (· ≠ i) s' c lists' A ∧ lists' i = [] := by
  intro rest
  induction rest with
  | nil =>
    intro r cur s lists h hi _ hw _
    have hcur : cur = hd i := hw
    exact ⟨s, lists, by rw [Timer.cascadeLoop.eq_def]; exact if_pos hcur, .refl s, rfl, h, hi⟩
  | cons n rest ih =>
    intro r cur s lists h hi hr hw hv
    obtain ⟨hcur, hw⟩ := hw
    obtain ⟨r, rfl⟩ : ∃ k, r = k + 1 := ⟨r - 1, by rw [length_cons] at hr; omega⟩
    have hnA : n ∈ A := (h.mem n).mpr ⟨i, by rw [hi]; exact mem_cons_self⟩
    have hsame := sameTimers_internalAddTimer (h.node n hnA)
    obtain ⟨h1, hw1⟩ := h.relink hi rfl (hv n mem_cons_self) hw
    obtain ⟨s', lists', hl, hs, hidx, h', hi'⟩ := ih r _ _ _ h1 (update_self ..)
      (by simpa using hr) hw1 fun m hm => by
        rw [hsame.node]
        exact hv m (mem_cons_of_mem _ hm)
    refine ⟨s', lists', ?_, hsame.trans hs, hidx, h', hi'⟩
    rw [hcur]
    exact (if_neg (hd_ne_node i n).symm).trans hl

/-! ## One level -/

/-- The nodes of the list that is due are less than one list of the level ahead. -/
theorem placed_due {E : Nat} (hp : Placed T c E i) (hn : 1 ≤ i.1 ∧ i.1 ≤ 4)
    (hT : T % span i.1 = 0) (hc : c i.1 = T / span i.1) (hi : i.2 = c i.1 % 64) :
    T ≤ E ∧ E < T + span i.1 := by
  rcases hp with ⟨h0, -⟩ | ⟨-, -, h1, h2, h3⟩
  · omega
  have he : E / span i.1 = T / span i.1 := by omega
  have hpos : 0 < span i.1 := by
    unfold span
    split <;> omega
  have hTe := Nat.div_add_mod T (span i.1)
  have hEe := Nat.div_add_mod E (span i.1)
  have hlt := Nat.mod_lt E hpos
  rw [he] at hEe
  omega

/-- A level moves on by one list once that list is empty. -/
theorem Placed.next {E lvl : Nat} (hp : Placed T c E i) (hi : i ≠ (lvl, c lvl % 64)) :
    Placed T (update c lvl (c lvl + 1)) E i := by
  rcases hp with h0 | ⟨h1, h4, hlo, hhi, hs⟩
  · exact .inl h0
  refine .inr ⟨h1, h4, ?_, ?_, hs⟩ <;>
  · by_cases hl : i.1 = lvl
    · have hne : i.2 ≠ c lvl % 64 := fun he => hi (Prod.ext hl he)
      rw [hl] at hlo hhi hs ⊢
      rw [update_self]
      omega
    · rw [update_of_ne hl]
      assumption

/-- **Cascading a level.** The list that is due at the current tick is spread
over the levels below, no timer is lost. -/
theorem Inv.cascadeTimers (h : Inv (fun _ => True) s c lists A) {lvl : Nat}
    (hl : 1 ≤ lvl ∧ lvl ≤ 4) (hT : s.uiCheckTime % span lvl = 0)
    (hc : c lvl = s.uiCheckTime / span lvl) (hA : A.length ≤ cascadeLimit) :
    ∃ s' lists', s.cascadeTimers lvl = some (s', true) ∧ SameTimers s s' ∧
      s'.tvIndex lvl = (c lvl + 1) % 64 ∧
      Inv (fun _ => True) s' (update c lvl (c lvl + 1)) lists' A := by
  have hidx := h.index lvl hl.1 hl.2
  let i : Nat × Nat := (lvl, s.tvIndex lvl)
  have hr := h.fam.ring i trivial
  have hdue : ∀ m ∈ lists i, s.vec (s.node m).uiExpire ≠ i := fun m hm he => by
    obtain ⟨h1, h2⟩ := placed_due (h.placed i m hm) hl hT hc hidx
    have := vec_lt h.time (h.node m ((h.mem m).mpr ⟨i, hm⟩)).bound hl h1 h2
    rw [he] at this
    exact lt_irrefl _ this
  have hlen : (lists i).length ≤ cascadeLimit := by
    have hsub : lists i ⊆ A := fun m hm => (h.mem m).mpr ⟨i, hm⟩
    exact le_trans ((h.nd i).subperm hsub).length_le hA
  have h0 : Inv (· ≠ i) s c lists A := { h with fam := h.fam.restrict fun _ _ => trivial }
  obtain ⟨s1, lists1, hloop, hsame, hidx1, h1, hempty⟩ :=
    Inv.cascadeLoop (lists i) cascadeLimit _ s lists h0 rfl hlen hr.seg.linked hdue
  let s2 := s1.initListHead (hd i)
  let s' : Timer := { s2 with
    tvIndex := update s2.tvIndex lvl ((s2.tvIndex lvl + 1) % 64) }
  have hrun : s.cascadeTimers lvl = some (s', true) := by
    have : Timer.cascadeLoop (.head lvl (s.tvIndex lvl)) cascadeLimit
        (s.pstNext (.head lvl (s.tvIndex lvl))) s = some (s1, true) := hloop
    rw [Timer.cascadeTimers, this]
    rfl
  have hidx2 : s1.tvIndex lvl = c lvl % 64 := by rw [hidx1]; exact hidx
  have hself : s'.tvIndex lvl = (c lvl + 1) % 64 := by
    show update s1.tvIndex lvl ((s1.tvIndex lvl + 1) % 64) lvl = _
    rw [update_self]
    omega
  refine ⟨s', lists1, hrun, hsame.trans ⟨rfl, rfl, rfl, rfl, rfl, rfl, rfl, rfl, rfl⟩, hself, ?_⟩
  exact { h1 with
    fam := h1.fam.reset (fun k hk hm => by
        rcases mem_cons.mp hm with hm | hm
        · exact hk (hd_inj hm).symm
        · obtain ⟨m, -, hm⟩ := mem_map.mp hm
          exact hd_ne_node i m hm.symm)
      (update_self ..) (update_self ..) (fun y hy => update_of_ne hy ..)
      (fun y hy => update_of_ne hy ..) (by rw [hempty]; rfl) fun _ _ => rfl
    placed := fun k m hm => by
      refine (h1.placed k m hm).next ?_
      rintro rfl
      rw [← hidx] at hm
      rw [hempty] at hm
      cases hm
    node := fun m hm => (h1.node m hm).congr rfl rfl rfl
    index := fun m hm1 hm4 => by
      by_cases hm : m = lvl
      · subst hm
        rw [update_self]
        exact hself
      · rw [update_of_ne hm, ← h1.index m hm1 hm4]
        exact update_of_ne hm ..
    level := fun m hm1 hm4 => by
      by_cases hm : m = lvl
      · subst hm
        rw [update_self, hc]
        have : s'.uiCheckTime = s.uiCheckTime := hsame.check
        rw [this]
        exact .inl rfl
      · rw [update_of_ne hm]
        exact h1.level m hm1 hm4 }

/-! ## The levels of a tick -/

/-- At tick `T` the levels below `k` are cascaded, the others are not yet. -/
def Cascaded (T k : Nat) (c : Nat → Nat) : Prop :=
  ∀ n, 1 ≤ n → n ≤ 4 → (n < k → c n = T / span n + 1) ∧
    (k ≤ n → c n = if T % span n = 0 then T / span n else T / span n + 1)

/-- Every level has been cascaded as far as tick `T` asks for it. -/
def Done (T : Nat) (c : Nat → Nat) : Prop := ∀ n, 1 ≤ n → n ≤ 4 → c n = T / span n + 1

theorem Cascaded.done (h : Cascaded T k c) (hk : k ≤ 4 → T % span k ≠ 0) (hk1 : 1 ≤ k) :
    Done T c := fun n h1 h4 => by
  obtain ⟨hlt, hge⟩ := h n h1 h4
  rcases lt_or_ge n k with hnk | hnk
  · exact hlt hnk
  rw [hge hnk, if_neg]
  have := hk (le_trans hnk h4)
  obtain rfl | rfl | rfl | rfl : n = 1 ∨ n = 2 ∨ n = 3 ∨ n = 4 := by omega
  all_goals
    obtain rfl | rfl | rfl | rfl : k = 1 ∨ k = 2 ∨ k = 3 ∨ k = 4 := by omega
    all_goals
      simp only [span] at this ⊢
      omega

theorem Cascaded.step (h : Cascaded T k c) (hk : k ≤ 4) (hk1 : 1 ≤ k) (hT : T % span k = 0) :
    c k = T / span k ∧ Cascaded T (k + 1) (update c k (c k + 1)) := by
  have hck : c k = T / span k := by rw [(h k hk1 hk).2 (le_refl k), if_pos hT]
  refine ⟨hck, fun n h1 h4 => ?_⟩
  obtain ⟨hlt, hge⟩ := h n h1 h4
  by_cases hnk : n = k
  · subst hnk
    exact ⟨fun _ => by rw [update_self, hck], fun hle => by omega⟩
  · rw [update_of_ne hnk]
    exact ⟨fun hn => hlt (by omega), fun hn => hge (by omega)⟩

/-- The test `tvecs[n]->index == 1` after a cascade asks whether the level
above is due too. -/
theorem index_one_iff (hk1 : 1 ≤ k) (hk : k ≤ 3) (hT : T % span k = 0) :
    (T / span k + 1) % 64 = 1 ↔ T % span (k + 1) = 0 := by
  obtain rfl | rfl | rfl : k = 1 ∨ k = 2 ∨ k = 3 := by omega
  all_goals
    simp only [span] at hT ⊢
    omega

/-- **Cascading a tick.** The `do … while` brings every level up to the tick. -/
theorem Inv.cascadeLevels : ∀ j k s c lists,
    k + j = 5 → 1 ≤ k → Inv (fun _ => True) s c lists A → Cascaded s.uiCheckTime k c →
    (k ≤ 4 → s.uiCheckTime % span k = 0) → A.length ≤ cascadeLimit →
    ∃ s' c' lists', Timer.cascadeLevels (List.range' k j) s = some (s', true) ∧ SameTimers s s' ∧
      Inv (fun _ => True) s' c' lists' A ∧ Done s.uiCheckTime c' := by
  intro j
  induction j with
  | zero =>
    intro k s c lists hk hk1 h hc _ _
    exact ⟨s, c, lists, rfl, .refl s, h, hc.done (by omega) hk1⟩
  | succ j ih =>
    intro k s c lists hk hk1 h hc hT hA
    obtain ⟨hck, hc1⟩ := hc.step (by omega) hk1 (hT (by omega))
    obtain ⟨s1, lists1, hrun, hsame, hidx, h1⟩ :=
      h.cascadeTimers ⟨hk1, by omega⟩ (hT (by omega)) hck hA
    rw [range'_succ, Timer.cascadeLevels, hrun]
    simp only [hidx, hck]
    rw [← hsame.check] at hc1
    split
    · rename_i h1'
      obtain ⟨s', c', lists', hr, hs, h', hd⟩ := ih (k + 1) s1 _ lists1 (by omega) (by omega) h1 hc1
        (fun hk4 => by
          rw [hsame.check]
          exact (index_one_iff hk1 (by omega) (hT (by omega))).mp h1') hA
      exact ⟨s', c', lists', hr, hsame.trans hs, h', hsame.check ▸ hd⟩
    · rename_i h1'
      refine ⟨s1, _, lists1, rfl, hsame, h1, ?_⟩
      rw [← hsame.check]
      refine hc1.done (fun hk4 => ?_) (by omega)
      rw [hsame.check]
      exact fun he => h1' ((index_one_iff hk1 (by omega) (hT (by omega))).mpr he)

/-! ## The next tick -/

variable (h : Inv (fun _ => True) s c lists A)
include h

theorem Inv.list_empty
    (he : s.pstNext (.head 0 s.tv1Index) = .head 0 s.tv1Index) : lists (0, s.tv1Index) = [] := by
  have hr := h.fam.ring (0, s.tv1Index) trivial
  cases hl : lists (0, s.tv1Index) with
  | nil => rfl
  | cons m l =>
    rw [hl] at hr
    have := hr.seg.1.1.symm.trans he
    cases this

/-- When its list is empty, every timer left is for a later tick. -/
theorem Inv.later (hc : Done s.uiCheckTime c)
    (he : s.pstNext (.head 0 s.tv1Index) = .head 0 s.tv1Index) :
    ∀ m ∈ A, s.uiCheckTime < (s.node m).uiExpire := by
  intro m hm
  obtain ⟨i, hi⟩ := (h.mem m).mp hm
  have hne : i ≠ (0, s.tv1Index) := by
    rintro rfl
    rw [h.list_empty he] at hi
    cases hi
  rcases h.placed i m hi with ⟨h0, hp⟩ | ⟨h1, h4, hlo, -, -⟩
  · have hi2 : i.2 ≠ s.uiCheckTime % 256 := fun h2 => hne (Prod.ext h0 (h2.trans h.tv1.symm))
    omega
  rw [hc i.1 h1 h4] at hlo
  obtain hl | hl | hl | hl : i.1 = 1 ∨ i.1 = 2 ∨ i.1 = 3 ∨ i.1 = 4 := by omega
  all_goals
    simp only [hl, span] at hlo
    omega

/-- Leaving a tick: its list is empty, so no timer is left behind. -/
theorem Inv.nextTick (hc : Done s.uiCheckTime c) (hT : s.uiCheckTime < 2147483648)
    (he : s.pstNext (.head 0 s.tv1Index) = .head 0 s.tv1Index) :
    Inv (fun _ => True) s.nextTick c lists A ∧ s.nextTick.uiCheckTime = s.uiCheckTime + 1 ∧
      Cascaded (s.uiCheckTime + 1) 1 c := by
  have hinc : inc32 s.uiCheckTime = s.uiCheckTime + 1 := inc32_eq (by omega)
  have hempty := h.list_empty he
  have hcas : Cascaded (s.uiCheckTime + 1) 1 c := fun n h1 h4 => by
    rw [hc n h1 h4]
    obtain rfl | rfl | rfl | rfl : n = 1 ∨ n = 2 ∨ n = 3 ∨ n = 4 := by omega
    all_goals
      simp only [span]
      split <;> omega
  refine ⟨?_, hinc, hcas⟩
  have hcheck : s.nextTick.uiCheckTime = s.uiCheckTime + 1 := hinc
  exact { h with
    placed := fun i m hm => by
      rw [hcheck]
      have hne : i ≠ (0, s.tv1Index) := by
        rintro rfl
        rw [hempty] at hm
        cases hm
      rcases h.placed i m hm with ⟨h0, hp⟩ | hp
      · have hi2 : i.2 ≠ s.uiCheckTime % 256 := fun h2 => hne (Prod.ext h0 (h2.trans h.tv1.symm))
        refine .inl ⟨h0, .inl ?_⟩
        show s.uiCheckTime + 1 ≤ (s.node m).uiExpire ∧
          (s.node m).uiExpire < s.uiCheckTime + 1 + 256 ∧ i.2 = (s.node m).uiExpire % 256
        omega
      · exact .inr hp
    node := fun m hm => (h.node m hm).congr rfl rfl rfl
    tv1 := by
      show (s.tv1Index + 1) % 256 = _
      rw [h.tv1]
      omega
    level := fun n h1 h4 => by
      rw [hcheck]
      obtain ⟨-, hge⟩ := hcas n h1 h4
      rw [hge h1]
      split
      · exact .inr ⟨rfl, by assumption⟩
      · exact .inl rfl
    time := by omega }

end DesPwd.L2.TimerWheel
