import Mathlib.Data.List.Basic

/-!
# Quoted literals in a text

A text with literals between two quotes `q`. Inside a literal two quotes in a
row and the escape `e` with the symbol behind it stand for themselves. `lex` cuts
a text into the symbols outside the literals and the literals.

* `lex_closed`: a text that is closed in itself fills one literal.
* `lex_not_closed`: any other text put between two quotes changes what stands
  outside the literals.
* `OneLiteral`: two texts differ at most inside one literal.
-/
namespace DesPwd.Quoted

open List

variable {α : Type} [DecidableEq α] (q e : α)

inductive Piece (α : Type) where
  | code (a : α)
  | lit (s : List α)
  /-- The text ends inside a literal. -/
  | unclosed (s : List α)
  deriving DecidableEq

namespace Piece

/-- The piece without what stands inside a literal. -/
def outside : Piece α → Piece α
  | lit _ => lit []
  | p => p

end Piece

/-- The pieces of a text; `some s` is inside a literal of which `s` was read. -/
def lex : Option (List α) → List α → List (Piece α)
  | none, [] => []
  | none, a :: t => if a = q then lex (some []) t else .code a :: lex none t
  | some s, [] => [.unclosed s]
  | some s, [a] => if a = q then [.lit s] else [.unclosed (s ++ [a])]
  | some s, a :: b :: t =>
    if a = e then lex (some (s ++ [a, b])) t
    else if a = q then
      if b = q then lex (some (s ++ [a, b])) t else .lit s :: lex none (b :: t)
    else lex (some (s ++ [a])) (b :: t)

/-- The text leaves the literal it stands in open, with no escape pending. -/
def closed : List α → Bool
  | [] => true
  | [a] => a ≠ e ∧ a ≠ q
  | a :: b :: t =>
    if a = e then closed t
    else if a = q then b = q ∧ closed t
    else closed (b :: t)

/-- The texts are the same but for what one literal holds. -/
def OneLiteral (a b : List α) : Prop :=
  a = b ∨ ∃ pre post x y,
    lex q e none a = pre ++ .lit x :: post ∧ lex q e none b = pre ++ .lit y :: post

variable {q e}

theorem OneLiteral.outside {a b : List α} (h : OneLiteral q e a b) :
    (lex q e none a).map Piece.outside = (lex q e none b).map Piece.outside := by
  obtain rfl | ⟨pre, post, x, y, ha, hb⟩ := h
  · rfl
  · rw [ha, hb, map_append, map_append]
    rfl

/-! ## Text without quotes -/

variable {s rest : List α}

theorem lex_plain (t : List α) (h : q ∉ s) :
    lex q e none (s ++ t) = s.map .code ++ lex q e none t := by
  induction s with
  | nil => rfl
  | cons a s ih =>
    rw [mem_cons, not_or] at h
    rw [cons_append, lex, if_neg (Ne.symm h.1), ih h.2]
    rfl

theorem lex_plain_nil (h : q ∉ s) : lex q e none s = s.map .code := by
  have := lex_plain (e := e) [] h
  rwa [append_nil, lex, append_nil] at this

/-- Texts that differ at most inside one literal start with the same symbols up to
their first quote. -/
theorem OneLiteral.take_eq {s' t t' : List α} (h : OneLiteral q e (s ++ t) (s' ++ t')) (n : Nat)
    (hs : q ∉ s.take n) (hs' : q ∉ s'.take n) (hlen : (s.take n).length = (s'.take n).length) :
    s.take n = s'.take n := by
  have hout := h.outside
  rw [← take_append_drop n s, ← take_append_drop n s', append_assoc,
    append_assoc, lex_plain _ hs, lex_plain _ hs', map_append, map_append,
    map_map, map_map] at hout
  have hcode := (append_inj hout (by rw [length_map, length_map, hlen])).1
  exact map_injective_iff.mpr (fun a b hab => Piece.code.inj hab) hcode

/-- A literal that starts in a text without quotes is not closed. -/
theorem lex_open : ∀ s t, q ∉ t → ∃ r, lex q e (some s) t = [.unclosed r]
  | s, [], _ => ⟨s, rfl⟩
  | s, [a], h => ⟨s ++ [a], by rw [lex, if_neg (ne_of_not_mem_cons h).symm]⟩
  | s, a :: b :: t, h => by
    have hb : q ∉ b :: t := not_mem_of_not_mem_cons h
    rw [lex, if_neg (ne_of_not_mem_cons h).symm]
    split
    · exact lex_open _ t (not_mem_of_not_mem_cons hb)
    · exact lex_open _ (b :: t) hb

omit [DecidableEq α] in
theorem ne_map_code {p : Piece α} (hp : ∀ a, p ≠ .code a) (ps : List (Piece α)) (cs : List α) :
    p :: ps ≠ cs.map .code := by
  cases cs with
  | nil => exact cons_ne_nil p ps
  | cons c cs => exact fun h => hp c (List.cons.inj h).1

/-- From inside a literal a text has a piece that is not outside the literals. -/
theorem lex_some_ne : ∀ s t cs : List α, lex q e (some s) t ≠ cs.map .code
  | s, [], cs => ne_map_code nofun [] cs
  | s, [a], cs => by
    rw [lex]
    split
    · exact ne_map_code nofun [] cs
    · exact ne_map_code nofun [] cs
  | s, a :: b :: t, cs => by
    rw [lex]
    split
    · exact lex_some_ne _ t cs
    split
    · split
      · exact lex_some_ne _ t cs
      · exact ne_map_code nofun _ cs
    · exact lex_some_ne _ (b :: t) cs

/-- A text without literals is what stands outside them. -/
theorem eq_of_lex_eq {t : List α} : ∀ {cs}, lex q e none t = cs.map .code → t = cs := by
  induction t with
  | nil =>
    intro cs h
    exact (map_eq_nil_iff.mp h.symm).symm
  | cons a t ih =>
    intro cs h
    rw [lex] at h
    split at h
    · exact absurd h (lex_some_ne [] t cs)
    cases cs with
    | nil => exact absurd h (cons_ne_nil _ _)
    | cons c cs =>
      obtain ⟨hac, ht⟩ := List.cons.inj h
      rw [Piece.code.inj hac, ih ht]

omit [DecidableEq α] in
theorem eq_of_map_outside : ∀ {ps : List (Piece α)} {cs : List α},
    ps.map Piece.outside = cs.map .code → ps = cs.map .code
  | [], _, h => h
  | .code _ :: ps, c :: cs, h => by
    obtain ⟨hc, ht⟩ := List.cons.inj h
    rw [map_cons, ← eq_of_map_outside ht, ← hc]
    rfl
  | .lit _ :: _, cs, h => absurd h (ne_map_code nofun _ cs)
  | .unclosed _ :: _, cs, h => absurd h (ne_map_code nofun _ cs)

/-! ## Text between two quotes -/

/-- A text that is closed in itself is what the literal holds. -/
theorem lex_closed (hqe : q ≠ e) (hrest : rest.head? ≠ some q) :
    ∀ s v, closed q e v = true →
      lex q e (some s) (v ++ q :: rest) = .lit (s ++ v) :: lex q e none rest
  | s, [], _ => by
    rw [nil_append, append_nil]
    cases rest with
    | nil => exact if_pos rfl
    | cons b t =>
      have hb : b ≠ q := fun hb => hrest (congrArg some hb)
      rw [lex.eq_5, if_neg hqe, if_pos rfl, if_neg hb]
  | s, [a], hv => by
    obtain ⟨hae, haq⟩ := of_decide_eq_true hv
    rw [singleton_append, lex, if_neg hae, if_neg haq]
    have := lex_closed hqe hrest (s ++ [a]) [] rfl
    rwa [append_nil] at this
  | s, a :: b :: t, hv => by
    rw [closed] at hv
    rw [cons_append, cons_append, lex]
    split at hv
    case isTrue hae =>
      rw [if_pos hae, lex_closed hqe hrest _ t hv, append_assoc]
      rfl
    case isFalse hae =>
      rw [if_neg hae]
      split at hv
      case isTrue haq =>
        obtain ⟨hbq, ht⟩ := of_decide_eq_true hv
        rw [if_pos haq, if_pos hbq, lex_closed hqe hrest _ t ht, append_assoc]
        rfl
      case isFalse haq =>
        rw [if_neg haq]
        have := lex_closed hqe hrest (s ++ [a]) (b :: t) hv
        rwa [append_assoc] at this

/-- Any other text changes what stands outside the literals: either its literal
ends inside it, and then more stands behind the literal, or the literal does not
end at the quote. -/
theorem lex_not_closed (hrest : q ∉ rest) : ∀ s v, closed q e v = false →
      (lex q e (some s) (v ++ q :: rest)).map Piece.outside ≠ .lit [] :: rest.map .code
  | s, [a], hv => by
    obtain ⟨r, hr⟩ := @lex_open α _ q e (s ++ [a, q]) rest hrest
    have hlex : lex q e (some s) (a :: q :: rest) = [.unclosed r] := by
      rw [lex]
      by_cases hae : a = e
      · rw [if_pos hae, hr]
      · have haq : a = q := not_not.mp fun haq => of_decide_eq_false hv ⟨hae, haq⟩
        rw [if_neg hae, if_pos haq, if_pos rfl, hr]
    rw [singleton_append, hlex]
    exact fun h => nomatch (List.cons.inj h).1
  | s, a :: b :: t, hv => by
    rw [closed] at hv
    rw [cons_append, cons_append, lex]
    split at hv
    case isTrue hae =>
      rw [if_pos hae]
      exact lex_not_closed hrest _ t hv
    case isFalse hae =>
      rw [if_neg hae]
      split at hv
      case isTrue haq =>
        rw [if_pos haq]
        by_cases hbq : b = q
        · rw [if_pos hbq]
          refine lex_not_closed hrest _ t ?_
          rw [Bool.eq_false_iff]
          exact fun ht => of_decide_eq_false hv ⟨hbq, ht⟩
        · -- the literal ends before `b`: the second quote would have to stand in `rest`
          rw [if_neg hbq]
          intro h
          have htail := eq_of_lex_eq (eq_of_map_outside (List.cons.inj h).2)
          refine hrest (htail ▸ ?_)
          rw [← cons_append]
          exact mem_append_right _ mem_cons_self
      case isFalse haq =>
        rw [if_neg haq]
        exact lex_not_closed hrest _ (b :: t) hv

/-! ## A statement with one slot for a text -/

/-- `v` put between two quotes. -/
def slot (q : α) (pre rest v : List α) : List α := pre ++ q :: (v ++ q :: rest)

variable (q e) in
/-- A quote behind `pre` starts a literal; `ps` are the pieces before it. -/
def Opens (pre : List α) (ps : List (Piece α)) : Prop :=
  ∀ t, lex q e none (pre ++ q :: t) = ps ++ lex q e (some []) t

theorem Opens.of_plain (h : q ∉ s) : Opens q e s (s.map .code) := fun t => by
  rw [lex_plain _ h, lex, if_pos rfl]

theorem Opens.slot {pre v : List α} {ps : List (Piece α)} (hqe : q ≠ e) (h : Opens q e pre ps)
    (hrest : q ∉ rest) (hne : rest ≠ []) (hv : closed q e v = true) :
    Opens q e (slot q pre rest v) (ps ++ .lit v :: rest.map .code) := fun t => by
  have hhead : (rest ++ q :: t).head? ≠ some q := by
    cases rest with
    | nil => exact absurd rfl hne
    | cons b r => exact fun hb => (ne_of_not_mem_cons hrest).symm (Option.some.inj hb)
  rw [Quoted.slot, append_assoc, cons_append, append_assoc, cons_append, h,
    lex_closed hqe hhead [] v hv, lex_plain _ hrest, lex, if_pos rfl, nil_append,
    append_assoc]
  rfl

section Slot

variable {pre rest : List α} {ps : List (Piece α)}

theorem lex_slot (hqe : q ≠ e) (h : Opens q e pre ps) (hrest : q ∉ rest) {v : List α}
    (hv : closed q e v = true) :
    lex q e none (slot q pre rest v) = ps ++ .lit v :: rest.map .code := by
  have hhead : rest.head? ≠ some q := fun hb => hrest (mem_of_mem_head? hb)
  rw [slot, h, lex_closed hqe hhead [] v hv, lex_plain_nil hrest]
  rfl

theorem oneLiteral_slot (hqe : q ≠ e) (h : Opens q e pre ps) (hrest : q ∉ rest) {v w : List α}
    (hv : closed q e v = true) (hw : closed q e w = true) :
    OneLiteral q e (slot q pre rest v) (slot q pre rest w) :=
  .inr ⟨ps, rest.map .code, v, w, lex_slot hqe h hrest hv, lex_slot hqe h hrest hw⟩

/-- A text changes nothing outside its literal exactly when it is closed. -/
theorem oneLiteral_slot_iff (hqe : q ≠ e) (h : Opens q e pre ps) (hrest : q ∉ rest) (v : List α) :
    OneLiteral q e (slot q pre rest v) (slot q pre rest []) ↔ closed q e v = true := by
  refine ⟨fun hone => ?_, fun hv => oneLiteral_slot hqe h hrest hv rfl⟩
  have hout := hone.outside
  rw [lex_slot hqe h hrest (v := []) rfl, slot, h, map_append, map_append] at hout
  have htail := append_cancel_left hout
  have hcode : (rest.map Piece.code).map Piece.outside = rest.map Piece.code :=
    map_map.trans rfl
  rw [map_cons, hcode] at htail
  exact (Bool.eq_false_or_eq_true _).resolve_right fun hv => lex_not_closed hrest [] v hv htail

end Slot

end DesPwd.Quoted
