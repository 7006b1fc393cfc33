/-!
# Runs of a state machine

A machine is a step function: `step s l = some s'` when the call or event `l`
takes `s` to `s'`, `none` when it does not return. `run` folds it over a
sequence of labels, and `Meets step ok ls s` says that every step of that run
starts in a state where `ok` allows its label.

* `run_inv`: what every allowed step keeps holds after every allowed run, and
  such a run is never stuck.
* `run_inv_total`: the same when every label is allowed everywhere.
* `run_keeps`: what every allowed step that returns keeps holds after every
  allowed run that returns.
* `run_fold`: a history kept beside the state.
* `run_append`, `Meets.append`, `Meets.split`: a run of two parts.
-/
namespace DesPwd.Run

open List

variable {S L : Type}

def run (step : S → L → Option S) : List L → S → Option S
  | [], s => some s
  | l :: ls, s => (step s l).bind (run step ls)

/-- Every step of the run `ls` from `s` starts where `ok` allows it. -/
def Meets (step : S → L → Option S) (ok : S → L → Prop) : List L → S → Prop
  | [], _ => True
  | l :: ls, s => ok s l ∧ ∀ s', step s l = some s' → Meets step ok ls s'

instance Meets.decidable (step : S → L → Option S) (ok : S → L → Prop)
    [∀ s l, Decidable (ok s l)] : ∀ ls s, Decidable (Meets step ok ls s)
  | [], _ => .isTrue trivial
  | l :: ls, s =>
    match hs : step s l with
    | none => decidable_of_iff (ok s l)
        ⟨fun h => ⟨h, fun s' h' => by rw [hs] at h'; cases h'⟩, And.left⟩
    | some s1 =>
      have := Meets.decidable step ok ls s1
      decidable_of_iff (ok s l ∧ Meets step ok ls s1)
        ⟨fun h => ⟨h.1, fun s' h' => by rw [hs] at h'; cases h'; exact h.2⟩,
          fun h => ⟨h.1, h.2 s1 hs⟩⟩

variable {step : S → L → Option S} {ok : S → L → Prop} {P : S → Prop}

theorem Meets.cons_iff {ls : List L} {l : L} {s s₁ : S} (hs : step s l = some s₁) :
    Meets step ok (l :: ls) s ↔ ok s l ∧ Meets step ok ls s₁ := by
  constructor
  · intro h
    exact ⟨h.1, h.2 s₁ hs⟩
  intro h
  refine ⟨h.1, fun s' hs' => ?_⟩
  rw [hs] at hs'
  cases hs'
  exact h.2

/-- The induction over a run: one allowed step returns and keeps `P`. -/
theorem run_inv (h : ∀ s l, P s → ok s l → ∃ s', step s l = some s' ∧ P s') :
    ∀ {ls} {s}, P s → Meets step ok ls s → ∃ s', run step ls s = some s' ∧ P s'
  | [], s, hs, _ => ⟨s, rfl, hs⟩
  | l :: ls, s, hs, hm => by
    obtain ⟨s1, he, h1⟩ := h s l hs hm.1
    obtain ⟨s2, hr, h2⟩ := run_inv h h1 (hm.2 s1 he)
    exact ⟨s2, by rw [run, he]; exact hr, h2⟩

/-- The induction over a run with a history `g` that each label adds to. -/
theorem run_fold {G : Type} {P : S → G → Prop}
    {note : G → L → G} (h : ∀ s l g, P s g → ok s l → ∃ s', step s l = some s' ∧ P s' (note g l)) :
    ∀ {ls} {s} {g}, P s g → Meets step ok ls s →
      ∃ s', run step ls s = some s' ∧ P s' (ls.foldl note g)
  | [], s, _, hs, _ => ⟨s, rfl, hs⟩
  | l :: ls, s, g, hs, hm => by
    obtain ⟨s1, he, h1⟩ := h s l g hs hm.1
    obtain ⟨s2, hr, h2⟩ := run_fold h h1 (hm.2 s1 he)
    exact ⟨s2, by rw [run, he]; exact hr, h2⟩

theorem meets_of_forall : ∀ {ls} {s}, (∀ l ∈ ls, ∀ s, ok s l) → Meets step ok ls s
  | [], _, _ => trivial
  | l :: _, s, h => ⟨h l mem_cons_self s, fun _ _ =>
      meets_of_forall fun l' hl' => h l' (mem_cons_of_mem _ hl')⟩

/-- What is known of every label is known at every step. -/
theorem Meets.and_mem {Q : L → Prop} :
    ∀ {ls} {s}, Meets step ok ls s → (∀ l ∈ ls, Q l) →
      Meets step (fun s l => Q l ∧ ok s l) ls s
  | [], _, _, _ => trivial
  | l :: _, _, hm, hq => ⟨⟨hq l mem_cons_self, hm.1⟩, fun s' hs' =>
      (hm.2 s' hs').and_mem fun l' hl' => hq l' (mem_cons_of_mem _ hl')⟩

theorem run_inv_total
    (h : ∀ s l, P s → ∃ s', step s l = some s' ∧ P s') (ls : List L) {s : S} (hs : P s) :
    ∃ s', run step ls s = some s' ∧ P s' :=
  run_inv (fun s l hs (_ : True) => h s l hs) hs (meets_of_forall fun _ _ _ => trivial)

/-- The induction over a run whose steps may not return. -/
theorem run_keeps (h : ∀ s l s', P s → ok s l → step s l = some s' → P s') :
    ∀ {ls} {s s'}, P s → Meets step ok ls s → run step ls s = some s' → P s'
  | [], s, s', hs, _, hr => by
    cases hr
    exact hs
  | l :: ls, s, s', hs, hm, hr => by
    obtain ⟨s1, he, hr1⟩ := Option.bind_eq_some_iff.mp hr
    exact run_keeps h (h s l s1 hs hm.1 he) (hm.2 s1 he) hr1

/-- Two conditions that agree wherever a run can get under the first. -/
theorem meets_iff {ok' : S → L → Prop} (h : ∀ s l, P s → (ok s l ↔ ok' s l))
    (hk : ∀ s l s', P s → ok s l → step s l = some s' → P s') :
    ∀ {ls} {s}, P s → (Meets step ok ls s ↔ Meets step ok' ls s)
  | [], _, _ => Iff.rfl
  | l :: ls, s, hs => by
    unfold Meets
    rw [← h s l hs]
    exact and_congr_right fun hok => forall₂_congr fun s' he => meets_iff h hk (hk s l s' hs hok he)

theorem run_append (ms : List L) :
    ∀ ls s, run step (ls ++ ms) s = (run step ls s).bind (run step ms)
  | [], _ => rfl
  | l :: ls, s => by
    rw [cons_append, run, run]
    cases step s l with
    | none => rfl
    | some s' => exact run_append ms ls s'

theorem Meets.append {ms : List L} : ∀ {ls} {s}, Meets step ok ls s →
      (∀ s', run step ls s = some s' → Meets step ok ms s') → Meets step ok (ls ++ ms) s
  | [], s, _, hm => hm s rfl
  | l :: ls, s, hl, hm => ⟨hl.1, fun s1 he => Meets.append (hl.2 s1 he) fun s2 hr =>
      hm s2 (by rw [run, he]; exact hr)⟩

theorem Meets.split {ms : List L} : ∀ {ls} {s}, Meets step ok (ls ++ ms) s →
      Meets step ok ls s ∧ ∀ s', run step ls s = some s' → Meets step ok ms s'
  | [], s, h => ⟨trivial, fun s' hr => by cases hr; exact h⟩
  | l :: ls, s, h => by
    refine ⟨⟨h.1, fun s1 he => (Meets.split (h.2 s1 he)).1⟩, fun s' hr => ?_⟩
    obtain ⟨s1, he, hr⟩ := Option.bind_eq_some_iff.mp hr
    exact (Meets.split (h.2 s1 he)).2 s' hr

end DesPwd.Run
