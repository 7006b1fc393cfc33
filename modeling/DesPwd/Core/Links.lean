import Mathlib.Algebra.Ring.Int.Defs
import Mathlib.Algebra.Ring.Nat

/-!
# Chains through a successor map

An array of cells, each with the index of its successor, holds singly linked
chains. `Linked next stop i l` says that following `next` from `i` visits
exactly the cells `l` and then arrives at `stop`; `walk` is the executable
traversal.

* `Linked.congr`: a chain only depends on the successors of its own cells.
* `Linked.push`, `Linked.snoc`: writing one successor pushes a cell in front of
  a chain, or appends one.
* `walk_eq_some`: the traversal finds the chain whenever its fuel covers it.
-/
namespace DesPwd.Links

open List

variable {α : Type}

/-- From `i`, `next` visits exactly `l` and arrives at `stop`. -/
def Linked (next : α → α) (stop : α) : α → List α → Prop
  | i, [] => i = stop
  | i, a :: l => i = a ∧ Linked next stop (next a) l

variable {next : α → α} {stop a : α}

/-- A chain survives every change of successors outside its own cells. -/
theorem Linked.congr {next' : α → α} :
    ∀ {i} {l}, Linked next stop i l → (∀ a ∈ l, next' a = next a) →
      Linked next' stop i l
  | _, [], h, _ => h
  | _, a :: l, h, he => by
    refine ⟨h.1, ?_⟩
    rw [he a mem_cons_self]
    exact h.2.congr fun b hb => he b (mem_cons_of_mem _ hb)

/-- Writing `next a` pushes `a` in front of a chain that does not hold it. -/
theorem Linked.push [DecidableEq α] {i : α} {l : List α} (h : Linked next stop i l) (ha : a ∉ l) :
    Linked (Function.update next a i) stop a (a :: l) := by
  refine ⟨rfl, ?_⟩
  rw [Function.update_self]
  refine h.congr fun b hb => Function.update_of_ne ?_ _ _
  rintro rfl
  exact ha hb

theorem Linked.snoc {next' : α → α} {b : α} :
    ∀ {i} {l}, Linked next stop i (l ++ [a]) → (∀ x ∈ l, next' x = next x) →
      next' a = b → next' b = stop → Linked next' stop i (l ++ [a, b])
  | _, [], h, _, ha, hb => ⟨h.1, ha, hb⟩
  | _, x :: l, h, he, ha, hb => by
    refine ⟨h.1, ?_⟩
    rw [he x mem_cons_self]
    exact h.2.snoc (fun y hy => he y (mem_cons_of_mem _ hy)) ha hb

theorem Linked.suffix {m : List α} :
    ∀ {i} {l}, Linked next stop i (l ++ a :: m) → Linked next stop a (a :: m)
  | _, [], h => ⟨rfl, h.2⟩
  | _, _ :: _, h => Linked.suffix h.2

/-- Every cell of a chain points into the chain or at its end. -/
theorem Linked.next_mem :
    ∀ {i} {l}, Linked next stop i l → ∀ a ∈ l, next a ∈ l ∨ next a = stop
  | _, [], _, _, ha => by cases ha
  | _, [b], h, a, ha => by
    rw [mem_singleton] at ha; subst ha
    exact .inr h.2
  | _, b :: c :: l, h, a, ha => by
    rcases mem_cons.mp ha with rfl | ha
    · refine .inl (mem_cons_of_mem _ ?_)
      rw [h.2.1]; exact mem_cons_self
    · rcases h.2.next_mem a ha with h1 | h1
      · exact .inl (mem_cons_of_mem _ h1)
      · exact .inr h1

/-- The traversal: the cells from `i` up to `stop`, if `stop` is met within
`fuel` steps. -/
def walk [DecidableEq α] (next : α → α) (stop : α) : Nat → α → Option (List α)
  | 0, i => if i = stop then some [] else none
  | fuel + 1, i => if i = stop then some [] else (walk next stop fuel (next i)).map (i :: ·)

theorem walk_eq_some [DecidableEq α] :
    ∀ {fuel} {i} {l}, Linked next stop i l → stop ∉ l → l.length ≤ fuel →
      walk next stop fuel i = some l
  | 0, _, [], h, _, _ => by simp [walk, show _ = stop from h]
  | _ + 1, _, [], h, _, _ => by simp [walk, show _ = stop from h]
  | fuel + 1, i, a :: l, h, hs, hl => by
    obtain ⟨rfl, h2⟩ := h
    have hne : i ≠ stop := fun e => hs (e ▸ mem_cons_self)
    have ih : walk next stop fuel (next i) = some l :=
      walk_eq_some h2 (fun hm => hs (mem_cons_of_mem _ hm)) (by simpa using hl)
    simp [walk, hne, ih]

end DesPwd.Links
