import DesPwd.Core.Circular
import DesPwd.Core.Run

/-!
# The log ring of an app, its writers and its drainer

Any number of processes add records to an app's ring in shared memory with
`WriteAppLogToShm`; one process takes them out again and writes them to a file
with `WriteFile`. A writer takes an index under the ring's lock, fills the slot
without it, assigns `dwLogSeq` and then, if it has seen `iLogStarIndex` at -1,
sets that index to its own slot under the lock. `step` interleaves the sections
under the lock, the assignment of `dwLogSeq` and the unlocked tests in any order.

`taken`, `returned`, `errors`, `drained` and `finished` are ghost fields: the
records in the order of their indexes, those whose call has returned 0, the
number of undrained records at each error, and two counts.

* `Inv.step_inv`: the ring is the window of the taken records that are not drained,
  as long as writers finish in the order of their indexes and nothing happens
  between a writer's assignment and its return.
* `app_log_ring`: what that means for the file.
* `app_log_ring_lost`: two writers that finish in the other order; the record
  of the first is never written.

The source files are in `lib/mtagent_api_open/`.
-/
namespace DesPwd.L5.AppLogRing

open Run Circular List Nat
open Function (update update_self update_of_ne)

/-! ## The system -/

/-- mirrors `TSLog`; `log` stands for the record's other fields -/
structure Slot (R : Type) where
  dwLogSeq : UInt32
  dwStartWriteLogTime : Nat
  log : Option R

/-- The variables of a writer; `num` is the ghost number of its index. -/
structure Write (R : Type) where
  iIndex : Nat
  dwSeq : UInt32
  log : R
  start : Nat
  num : Nat

/-- Where a call of `WriteAppLogToShm` is. -/
inductive Writer (R : Type) where
  | idle
  /-- it fills its slot -/
  | writing (w : Write R)
  /-- `dwLogSeq` is assigned -/
  | assigned (w : Write R)
  /-- `ModifyLogStartIndexCmpAndSwap` has seen -1 -/
  | checked (w : Write R)

/-- Where `WriteFile` is: at index `iLast`, with `i` of `m` records done. -/
inductive Drainer where
  | idle
  | loop (iLast i m : Nat)
  /-- `WriteLogRecord` has returned 0 -/
  | wrote (iLast i m : Nat)
  /-- `iLogStarIndex` was still `iLast` -/
  | checked (iLast i m : Nat)
  deriving DecidableEq

/-- The test of the loop in `WriteFile`. -/
def Drainer.again (iLast i m : Nat) : Drainer := if i < m then .loop iLast i m else .idle

/-- mirrors `TSLogShm` and the parties around it; `none` for `iLogStarIndex` is -1 -/
structure Sys (R : Type) where
  iWriteIndex : Nat
  iLogStarIndex : Option Nat
  dwLogSeq : UInt32
  sLogList : Nat → Slot R
  writer : Nat → Writer R
  drainer : Drainer
  file : List R
  taken : List R
  returned : List R
  errors : List Nat
  drained : Nat
  finished : Nat

inductive Label (R : Type) where
  /-- the section in which process `pid` takes an index for `log` -/
  | take (pid : Nat) (log : R) (now : Nat)
  | assign (pid : Nat)
  | check (pid : Nat)
  /-- the section of `ModifyLogStartIndexCmpAndSwap` -/
  | publish (pid : Nat)
  | drainStart (iWriteRecords : Nat)
  | drainWrite (now : Nat)
  | drainCheck
  | drainAdvance

variable {R : Type}

namespace Sys

/-- The sequence number that the next record gets. -/
def dwSeq (s : Sys R) : UInt32 := if s.dwLogSeq = 0 then 1 else s.dwLogSeq

/-- mirrors supper_log.cpp:3753-3763 -/
def enter (n : Nat) (s : Sys R) (pid : Nat) (log : R) (now : Nat) : Sys R :=
  { s with
    iWriteIndex := next n s.iWriteIndex
    dwLogSeq := s.dwSeq + 1
    sLogList := update s.sLogList s.iWriteIndex ⟨0, now, (s.sLogList s.iWriteIndex).log⟩
    writer := update s.writer pid (.writing ⟨s.iWriteIndex, s.dwSeq, log, now, s.taken.length⟩)
    taken := s.taken ++ [log] }

/-- mirrors supper_log.cpp:3746-3779 -/
def take (n : Nat) (s : Sys R) (pid : Nat) (log : R) (now : Nat) : Sys R :=
  if s.iLogStarIndex = some s.iWriteIndex then
    { s with errors := s.errors ++ [s.taken.length - s.drained] }
  else s.enter n pid log now

/-- mirrors supper_log.cpp:3781-3901 -/
def assign (s : Sys R) (pid : Nat) (w : Write R) : Sys R :=
  { s with
    sLogList := update s.sLogList w.iIndex
      ⟨w.dwSeq, (s.sLogList w.iIndex).dwStartWriteLogTime, some w.log⟩
    writer := update s.writer pid (.assigned w)
    finished := s.finished + 1 }

/-- The call returns 0. -/
def ret (s : Sys R) (pid : Nat) (w : Write R) : Sys R :=
  { s with writer := update s.writer pid .idle, returned := s.returned ++ [w.log] }

/-- mirrors supper_log.cpp:3985 -/
def check (s : Sys R) (pid : Nat) (w : Write R) : Sys R :=
  match s.iLogStarIndex with
  | none => { s with writer := update s.writer pid (.checked w) }
  | some _ => s.ret pid w

/-- mirrors supper_log.cpp:3987-3995 -/
def publish (s : Sys R) (pid : Nat) (w : Write R) : Sys R :=
  let star :=
    match s.iLogStarIndex with
    | none => some w.iIndex
    | some _ => if w.iIndex = s.iWriteIndex then none else some w.iIndex
  { s with iLogStarIndex := star }.ret pid w

/-- mirrors supper_log.cpp:5560-5569 -/
def drainStart (s : Sys R) (m : Nat) : Sys R :=
  match s.iLogStarIndex with
  | none => s
  | some i => { s with drainer := .again i 0 m }

/-- A slot that its writer has held for more than five seconds is passed over.
mirrors supper_log.cpp:5430-5439 and 5570-5573 -/
def drainWrite (s : Sys R) (now iLast i m : Nat) : Sys R :=
  let slot := s.sLogList iLast
  if slot.dwLogSeq = 0 then
    if slot.dwStartWriteLogTime + 5 < now then { s with drainer := .wrote iLast (i + 1) m }
    else { s with drainer := .idle }
  else { s with drainer := .wrote iLast (i + 1) m, file := s.file ++ slot.log.toList }

/-- mirrors supper_log.cpp:5576-5577 -/
def drainCheck (s : Sys R) (iLast i m : Nat) : Sys R :=
  if s.iLogStarIndex = some iLast then { s with drainer := .checked iLast i m }
  else { s with drainer := .idle }

/-- mirrors supper_log.cpp:5579-5592 -/
def drainAdvance (n : Nat) (s : Sys R) (iLast i m : Nat) : Sys R :=
  if next n iLast = s.iWriteIndex then
    { s with iLogStarIndex := none, drainer := .idle, drained := s.drained + 1 }
  else
    { s with
      iLogStarIndex := some (next n iLast)
      drainer := .again (next n iLast) i m
      drained := s.drained + 1 }

end Sys

/-- One step; `none` when the party is not there. -/
def step (n : Nat) (s : Sys R) : Label R → Option (Sys R)
  | .take pid log now => match s.writer pid with
    | .idle => some (s.take n pid log now)
    | _ => none
  | .assign pid => match s.writer pid with
    | .writing w => some (s.assign pid w)
    | _ => none
  | .check pid => match s.writer pid with
    | .assigned w => some (s.check pid w)
    | _ => none
  | .publish pid => match s.writer pid with
    | .checked w => some (s.publish pid w)
    | _ => none
  | .drainStart m => match s.drainer with
    | .idle => some (s.drainStart m)
    | _ => none
  | .drainWrite now => match s.drainer with
    | .loop iLast i m => some (s.drainWrite now iLast i m)
    | _ => none
  | .drainCheck => match s.drainer with
    | .wrote iLast i m => some (s.drainCheck iLast i m)
    | _ => none
  | .drainAdvance => match s.drainer with
    | .checked iLast i m => some (s.drainAdvance n iLast i m)
    | _ => none

/-- A ring after `GetAppLogShm` has created it. -/
def Sys.init : Sys R where
  iWriteIndex := 0
  iLogStarIndex := none
  dwLogSeq := 0
  sLogList _ := ⟨0, 0, none⟩
  writer _ := .idle
  drainer := .idle
  file := []
  taken := []
  returned := []
  errors := []
  drained := 0
  finished := 0

/-! ## The condition on a step -/

/-- Process `pid` is between its assignment of `dwLogSeq` and its return. -/
def Sys.Mid (s : Sys R) (pid : Nat) (w : Write R) : Prop :=
  s.writer pid = .assigned w ∨ s.writer pid = .checked w

/-- The steps with which `pid` ends its call. -/
def Label.EndsCall (pid : Nat) : Label R → Prop
  | .check p => p = pid
  | .publish p => p = pid
  | _ => False

structure StepOk (n : Nat) (s : Sys R) (l : Label R) : Prop where
  /-- a writer that has assigned `dwLogSeq` ends its call before anything else
  happens -/
  atomic : ∀ pid w, s.Mid pid w → l.EndsCall pid
  /-- the writer with the oldest index assigns first -/
  oldest : ∀ pid w, l = .assign pid → s.writer pid = .writing w →
    ∀ pid' w', s.writer pid' = .writing w' → w.num ≤ w'.num
  /-- while nothing is published, fewer than `n` records are under way -/
  room : ∀ pid log now, l = .take pid log now → s.iLogStarIndex = none →
    s.taken.length < s.drained + n
  /-- writers finish within five seconds -/
  timely : ∀ now, l = .drainWrite now → ∀ pid w, s.writer pid = .writing w → now ≤ w.start + 5

/-! ## Indexes -/

variable {n j k iLast i m p q now : Nat} {v : Writer R}

theorem next_mod (hn : 0 < n) (t : Nat) : next n (t % n) = (t + 1) % n := by
  have hlt := mod_lt t hn
  have hsplit : t + 1 = (t % n + 1) + n * (t / n) := by
    have := mod_add_div t n
    omega
  have hmod : (t + 1) % n = (t % n + 1) % n := by rw [hsplit, add_mul_mod_self_left]
  rw [hmod]
  unfold Circular.next
  split
  · have : t % n + 1 = n := by omega
    rw [this, mod_self]
  · exact (mod_eq_of_lt (by omega)).symm

theorem mod_inj (hjk : j ≤ k) (hk : k < j + n) (h : j % n = k % n) : j = k := by
  have hzero : (k - j) % n = 0 := sub_mod_eq_zero_of_mod_eq h.symm
  rw [mod_eq_of_lt (by omega)] at hzero
  omega

theorem mod_ne (hjk : j < k) (hk : k < j + n) : j % n ≠ k % n := by
  intro h
  have := mod_inj (Nat.le_of_lt hjk) hk h
  omega

/-! ## The invariant -/

/-- The index that `WriteFile` is at. -/
def Drainer.index : Drainer → Option Nat
  | .idle => none
  | .loop i _ _ => some i
  | .wrote i _ _ => some i
  | .checked i _ _ => some i

/-- How many records `WriteFile` has written that it has not yet taken out. -/
def Drainer.ahead : Drainer → Nat
  | .idle => 0
  | .loop _ _ _ => 0
  | .wrote _ _ _ => 1
  | .checked _ _ _ => 1

@[simp] theorem Drainer.ahead_again (iLast i m : Nat) : (Drainer.again iLast i m).ahead = 0 := by
  unfold Drainer.again
  split <;> rfl

theorem Drainer.index_again (h : (Drainer.again iLast i m).index = some k) : k = iLast := by
  unfold Drainer.again at h
  split at h <;> cases h
  rfl

/-- What holds of a writer that fills its slot. -/
structure Writing (n finished : Nat) (taken : List R) (slots : Nat → Slot R) (w : Write R) :
    Prop where
  lower : finished ≤ w.num
  index : w.iIndex = w.num % n
  seq : w.dwSeq ≠ 0
  log : taken[w.num]? = some w.log
  slot : (slots (w.num % n)).dwLogSeq = 0
  start : (slots (w.num % n)).dwStartWriteLogTime = w.start

/-- What holds of a writer that has assigned `dwLogSeq`: it is the next to return. -/
structure Ending (n finished : Nat) (taken returned : List R) (w : Write R) : Prop where
  finished : finished = returned.length + 1
  index : w.iIndex = returned.length % n
  log : taken[returned.length]? = some w.log

/-- The records from `finished` on have one writer each. -/
structure Writers (n finished : Nat) (taken : List R) (slots : Nat → Slot R)
    (writer : Nat → Writer R) : Prop where
  busy : ∀ j, finished ≤ j → j < taken.length → ∃ pid w, writer pid = .writing w ∧ w.num = j
  writing : ∀ pid w, writer pid = .writing w → Writing n finished taken slots w
  distinct : ∀ pid pid' w w', writer pid = .writing w → writer pid' = .writing w' →
    w.num = w'.num → pid = pid'

/-- The records with the numbers from `drained` up to `taken.length` are in the
ring, those below `finished` with their contents, the others with a writer. -/
structure Inv (n : Nat) (s : Sys R) : Prop
    extends Writers n s.finished s.taken s.sLogList s.writer where
  pos : 0 < n
  write : s.iWriteIndex = s.taken.length % n
  ahead : s.drained + s.drainer.ahead ≤ s.returned.length
  returned_le : s.returned.length ≤ s.finished
  finished_le : s.finished ≤ s.taken.length
  fits : s.taken.length ≤ s.drained + n
  returned : s.returned = s.taken.take s.returned.length
  star : ∀ i, s.iLogStarIndex = some i → i = s.drained % n ∧ s.drained < s.taken.length
  unpublished : s.iLogStarIndex = none → s.drained = s.returned.length
  done : ∀ j log, s.drained ≤ j → j < s.finished → s.taken[j]? = some log →
    (s.sLogList (j % n)).dwLogSeq ≠ 0 ∧ (s.sLogList (j % n)).log = some log
  ending : ∀ pid w, s.Mid pid w → Ending n s.finished s.taken s.returned w
  one : ∀ pid pid' w w', s.Mid pid w → s.Mid pid' w' → pid = pid'
  none_ending : (∀ pid w, ¬ s.Mid pid w) → s.returned.length = s.finished
  seen : ∀ pid w, s.writer pid = .checked w → s.iLogStarIndex = none
  drainer : ∀ i, s.drainer.index = some i → s.iLogStarIndex = some i
  file : s.file = s.taken.take (s.drained + s.drainer.ahead)
  errors : ∀ e ∈ s.errors, e = n

theorem Inv.init (hn : 0 < n) : Inv n (Sys.init : Sys R) := by
  constructor
  case toWriters => constructor <;> simp [Sys.init]
  all_goals simp [Sys.init, Sys.Mid, Drainer.ahead, Drainer.index, hn]

variable {n : Nat} {s s' : Sys R} {pid : Nat} {w : Write R}

/-- The ring has a free slot exactly if the index of the next record is not that
of the oldest. -/
theorem Inv.room (h : Inv n s) (hne : s.iLogStarIndex ≠ some s.iWriteIndex)
    (hroom : s.iLogStarIndex = none → s.taken.length < s.drained + n) :
    s.taken.length < s.drained + n := by
  cases hstar : s.iLogStarIndex with
  | none => exact hroom hstar
  | some i =>
    have hi := (h.star i hstar).1
    rcases Nat.lt_or_eq_of_le h.fits with hlt | heq
    · exact hlt
    · refine absurd ?_ hne
      rw [hstar, hi, h.write, heq, add_mod_right]

theorem Inv.full (h : Inv n s) (heq : s.iLogStarIndex = some s.iWriteIndex) :
    s.taken.length - s.drained = n := by
  have ⟨hi, hlt⟩ := h.star _ heq
  have hfits := h.fits
  rw [h.write] at hi
  rcases Nat.lt_or_eq_of_le hfits with hin | hn
  · exact absurd hi.symm (mod_ne hlt hin)
  · omega

/-! ## Steps of a writer -/

theorem Writing.upper {f : Nat} {taken : List R} {slots : Nat → Slot R}
    (h : Writing n f taken slots w) : w.num < taken.length :=
  (List.getElem?_eq_some_iff.1 h.log).1

/-- While a writer is at work elsewhere, one that fills its slot is not
affected. -/
theorem Writing.frame {f f' : Nat} {taken taken' : List R} {slots : Nat → Slot R}
    {slot : Slot R} (h : Writing n f taken slots w) (hf : f' ≤ w.num)
    (hlog : taken'[w.num]? = some w.log) (hi : w.num % n ≠ i) :
    Writing n f' taken' (update slots i slot) w where
  lower := hf
  index := h.index
  seq := h.seq
  log := hlog
  slot := by rw [update_of_ne hi, h.slot]
  start := by rw [update_of_ne hi, h.start]

/-- The writer of a process after an update, for a step that writes `v`. -/
theorem update_cases {f : Nat → Writer R} {x : Writer R} (h : update f p v q = x) :
    (q = p ∧ v = x) ∨ (q ≠ p ∧ f q = x) := by
  by_cases hq : q = p
  · subst hq
    rw [update_self] at h
    exact .inl ⟨rfl, h⟩
  · rw [update_of_ne hq] at h
    exact .inr ⟨hq, h⟩

/-- A step that does not take a slot leaves no new writer that fills one. -/
theorem writing_of_update {f : Nat → Writer R} {x : Write R}
    (h : update f p v q = .writing x) (hv : ∀ y, v ≠ .writing y) :
    q ≠ p ∧ f q = .writing x := by
  rcases update_cases h with ⟨-, he⟩ | hq
  · exact absurd he (hv x)
  · exact hq

theorem Sys.Mid.ne_writing (hm : s.Mid pid w) (x : Write R) : s.writer pid ≠ .writing x := by
  intro hx
  rcases hm with ha | hc
  · cases ha.symm.trans hx
  · cases hc.symm.trans hx

/-- The writers between assignment and return after a step of process `p`. -/
theorem Sys.Mid.of_update {x : Write R} (hs : s'.writer = update s.writer p v) (hm : s'.Mid q x) :
    (q = p ∧ (v = .assigned x ∨ v = .checked x)) ∨ (q ≠ p ∧ s.Mid q x) := by
  unfold Sys.Mid at hm
  rw [hs] at hm
  rcases hm with ha | hc
  · rcases update_cases ha with ⟨hq, hv⟩ | ⟨hne, hq⟩
    · exact .inl ⟨hq, .inl hv⟩
    · exact .inr ⟨hne, .inl hq⟩
  · rcases update_cases hc with ⟨hq, hv⟩ | ⟨hne, hq⟩
    · exact .inl ⟨hq, .inr hv⟩
    · exact .inr ⟨hne, .inr hq⟩

section Writers

variable {f : Nat} {taken : List R} {slots : Nat → Slot R} {writer : Nat → Writer R}

/-- A record that is not that of process `pid` keeps its writer. -/
theorem Writers.busy_update (h : Writers n f taken slots writer) (hfj : f ≤ j)
    (hj : j < taken.length) (hne : ∀ x, writer pid = .writing x → x.num ≠ j) :
    ∃ q x, update writer pid v q = .writing x ∧ x.num = j := by
  obtain ⟨q, x, hq, hxj⟩ := h.busy j hfj hj
  have hqp : q ≠ pid := by
    rintro rfl
    exact hne x hq hxj
  exact ⟨q, x, by rw [update_of_ne hqp, hq], hxj⟩

theorem Writers.update (h : Writers n f taken slots writer) (hp : ∀ x, writer pid ≠ .writing x)
    (hv : ∀ x, v ≠ .writing x) : Writers n f taken slots (update writer pid v) := by
  have hother : ∀ q x, Function.update writer pid v q = .writing x → writer q = .writing x :=
    fun q x hq => (writing_of_update hq hv).2
  exact
    { busy := fun j hfj hj => h.busy_update hfj hj fun x hx => absurd hx (hp x)
      writing := fun q x hq => h.writing q x (hother q x hq)
      distinct := fun q q' x x' hq hq' =>
        h.distinct q q' x x' (hother q x hq) (hother q' x' hq') }

end Writers

theorem dwSeq_ne_zero (s : Sys R) : s.dwSeq ≠ 0 := by
  unfold Sys.dwSeq
  split
  · decide
  · assumption

section

variable (h : Inv n s)
include h

/-- The number of a record in the ring is less than one round behind the next. -/
theorem Inv.slot_ne (hroom : s.taken.length < s.drained + n)
    (hd : s.drained ≤ j) (hj : j < s.taken.length) : j % n ≠ s.iWriteIndex := by
  rw [h.write]
  exact mod_ne hj (by omega)

theorem Inv.drained_le : s.drained ≤ s.returned.length :=
  Nat.le_trans (Nat.le_add_right _ _) h.ahead

theorem Inv.enter {log : R} (hidle : s.writer pid = .idle)
    (hmid : ∀ q x, ¬ s.Mid q x) (hroom : s.taken.length < s.drained + n) :
    Inv n (s.enter n pid log now) := by
  have hr := h.returned_le
  have hf := h.finished_le
  have hfile := h.ahead
  have hmid' : ∀ q x, ¬ (s.enter n pid log now).Mid q x := by
    intro q x hm
    rcases hm.of_update rfl with ⟨-, hv⟩ | ⟨-, hq⟩
    · rcases hv with hv | hv <;> cases hv
    · exact hmid q x hq
  have hlen : (s.enter n pid log now).taken.length = s.taken.length + 1 := by simp [Sys.enter]
  refine { h with
      write := ?write, finished_le := ?finished_le, fits := ?fits, returned := ?returned
      star := ?star, done := ?done, busy := ?busy, writing := ?writing, distinct := ?distinct
      ending := fun q x hm => absurd hm (hmid' q x)
      one := fun q _ x _ hm => absurd hm (hmid' q x)
      none_ending := fun _ => h.none_ending hmid
      seen := fun q x hc => absurd (.inr hc) (hmid' q x)
      file := ?file }
  case write =>
    rw [hlen, ← next_mod h.pos, ← h.write]
    rfl
  case finished_le => exact hlen ▸ le_succ_of_le hf
  case fits => exact hlen ▸ hroom
  case returned =>
    refine h.returned.trans ?_
    exact (take_append_of_le_length (by omega)).symm
  case star =>
    intro i hi
    obtain ⟨hix, hlt⟩ := h.star i hi
    exact ⟨hix, hlen ▸ lt_succ_of_lt hlt⟩
  case done =>
    intro j r hdj hjf hj
    have hjt : j < s.taken.length := Nat.lt_of_lt_of_le hjf hf
    have hne := h.slot_ne hroom hdj hjt
    simp only [Sys.enter, getElem?_append_left hjt] at hj
    simp only [Sys.enter, update_of_ne hne]
    exact h.done j r hdj hjf hj
  case busy =>
    intro j hfj hj
    rw [hlen] at hj
    rcases Nat.lt_or_eq_of_le (Nat.le_of_lt_succ hj) with hlt | heq
    · exact h.busy_update hfj hlt fun x hx => by
        rw [hidle] at hx
        cases hx
    · exact ⟨pid, _, update_self .., heq.symm⟩
  case writing =>
    intro q x hq
    rcases update_cases hq with ⟨-, hx⟩ | ⟨-, hq⟩
    · cases hx
      exact
        { lower := hf
          index := h.write
          seq := dwSeq_ne_zero s
          log := by simp [Sys.enter]
          slot := by simp [Sys.enter, ← h.write]
          start := by simp [Sys.enter, ← h.write] }
    · have hx := h.writing q x hq
      have hlow := hx.lower
      have hlog : (s.taken ++ [log])[x.num]? = some x.log := by
        rw [getElem?_append_left hx.upper, hx.log]
      exact hx.frame hlow hlog (h.slot_ne hroom (by omega) hx.upper)
  case distinct =>
    intro q q' x x' hq hq' hnum
    rcases update_cases hq with ⟨rfl, hx⟩ | ⟨-, hq⟩
    · rcases update_cases hq' with ⟨rfl, -⟩ | ⟨-, hq'⟩
      · rfl
      · cases hx
        exact absurd hnum.symm (Nat.ne_of_lt (h.writing q' x' hq').upper)
    · rcases update_cases hq' with ⟨-, hx'⟩ | ⟨-, hq'⟩
      · cases hx'
        exact absurd hnum (Nat.ne_of_lt (h.writing q x hq).upper)
      · exact h.distinct q q' x x' hq hq' hnum
  case file =>
    refine h.file.trans ?_
    exact (take_append_of_le_length (by omega)).symm

theorem Inv.take {log : R} (hidle : s.writer pid = .idle)
    (hok : StepOk n s (.take pid log now)) : Inv n (s.take n pid log now) := by
  unfold Sys.take
  split
  case isTrue hfull =>
    have he := h.full hfull
    exact { h with
      errors := by
        intro e hmem
        rcases mem_append.1 hmem with hold | hnew
        · exact h.errors e hold
        · rw [mem_singleton.1 hnew, he] }
  case isFalse hne =>
    exact h.enter hidle hok.atomic (h.room hne (hok.room pid log now rfl))

/-- The oldest writer has the number `finished`. -/
theorem Inv.oldest_num (hw : s.writer pid = .writing w)
    (hold : ∀ q x, s.writer q = .writing x → w.num ≤ x.num) : w.num = s.finished := by
  have hlow := (h.writing pid w hw).lower
  have hup := (h.writing pid w hw).upper
  obtain ⟨q, x, hq, hx⟩ := h.busy s.finished (Nat.le_refl _) (by omega)
  have := hold q x hq
  omega

theorem Inv.assign (hw : s.writer pid = .writing w)
    (hok : StepOk n s (.assign pid)) : Inv n (s.assign pid w) := by
  have hmid : ∀ q x, ¬ s.Mid q x := hok.atomic
  have hpf := h.none_ending hmid
  have hx := h.writing pid w hw
  have hnum := h.oldest_num hw (hok.oldest pid w rfl hw)
  have hup := hx.upper
  have hd := h.drained_le
  have hfits := h.fits
  have hmid' : ∀ q x, (s.assign pid w).Mid q x → q = pid ∧ x = w := by
    intro q x hm
    rcases hm.of_update rfl with ⟨hq, hv⟩ | ⟨-, hq⟩
    · rcases hv with hv | hv <;> cases hv
      exact ⟨hq, rfl⟩
    · exact absurd hq (hmid q x)
  have hother : ∀ q x, (s.assign pid w).writer q = .writing x → q ≠ pid ∧ s.writer q = .writing x :=
    fun q x hq => writing_of_update hq nofun
  refine { h with
      returned_le := le_succ_of_le h.returned_le
      finished_le := ?finished_le, done := ?done, busy := ?busy, writing := ?writing
      distinct := ?distinct, ending := ?ending, one := ?one, none_ending := ?none_ending
      seen := ?seen }
  case finished_le =>
    rw [hnum] at hup
    exact hup
  case done =>
    intro j r (hdj : s.drained ≤ j) hjf hj
    rcases Nat.lt_or_eq_of_le (Nat.le_of_lt_succ hjf) with hlt | rfl
    · have hne : j % n ≠ w.iIndex := by
        rw [hx.index, hnum]
        exact mod_ne hlt (by omega)
      simp only [Sys.assign, update_of_ne hne]
      exact h.done j r hdj hlt hj
    · have hlog := hx.log
      rw [hnum] at hlog
      have hr : w.log = r := Option.some.inj (hlog.symm.trans hj)
      simp only [Sys.assign, hx.index, hnum, update_self]
      exact ⟨hx.seq, congrArg some hr⟩
  case busy =>
    intro j hfj hj
    refine h.busy_update (le_of_succ_le hfj) hj fun x hx => ?_
    cases hw.symm.trans hx
    exact hnum ▸ Nat.ne_of_lt hfj
  case writing =>
    intro q x hq
    obtain ⟨hqp, hq⟩ := hother q x hq
    have hx' := h.writing q x hq
    have hlow := hx'.lower
    have hup' := hx'.upper
    have hlt : s.finished < x.num := by
      rcases Nat.lt_or_eq_of_le hlow with hlt | heq
      · exact hlt
      · exact absurd (h.distinct q pid x w hq hw (by omega)) hqp
    have hne : x.num % n ≠ w.iIndex := by
      rw [hx.index, hnum]
      exact (mod_ne hlt (by omega)).symm
    exact hx'.frame hlt hx'.log hne
  case distinct =>
    intro q q' x x' hq hq'
    exact h.distinct q q' x x' (hother q x hq).2 (hother q' x' hq').2
  case ending =>
    intro q x hm
    obtain ⟨-, rfl⟩ := hmid' q x hm
    refine ⟨congrArg (· + 1) hpf.symm, ?_, ?_⟩
    · exact hx.index.trans (by rw [hnum, ← hpf]; rfl)
    · have hlog := hx.log
      rw [hnum, ← hpf] at hlog
      exact hlog
  case one =>
    intro q q' x x' hm hm'
    rw [(hmid' q x hm).1, (hmid' q' x' hm').1]
  case none_ending =>
    intro hno
    exact absurd (.inl (update_self ..)) (hno pid w)
  case seen =>
    intro q x hc
    rcases update_cases hc with ⟨-, hv⟩ | ⟨-, hq⟩
    · cases hv
    · exact h.seen q x hq

theorem Inv.ret (hm : s.Mid pid w) (i : Nat) (hi : i = s.drained % n)
    (hstar : s.iLogStarIndex = none ∨ s.iLogStarIndex = some i) :
    Inv n (({ s with iLogStarIndex := some i }).ret pid w) := by
  have he := h.ending pid w hm
  have hd := h.drained_le
  have hf := h.finished_le
  have hlen : (s.returned ++ [w.log]).length = s.returned.length + 1 := by simp
  have hlt : s.drained < s.taken.length := by
    have := he.finished
    omega
  have hmid : ∀ q x, ¬ (({ s with iLogStarIndex := some i }).ret pid w).Mid q x := by
    intro q x hm'
    rcases hm'.of_update rfl with ⟨-, hv⟩ | ⟨hne, hq⟩
    · rcases hv with hv | hv <;> cases hv
    · exact hne (h.one q pid x w hq hm)
  refine { h with
      toWriters := h.toWriters.update hm.ne_writing nofun
      ahead := Nat.le_trans h.ahead (hlen ▸ Nat.le_succ _)
      returned_le := ?returned_le, returned := ?returned
      star := ?star
      unpublished := fun hno => nomatch hno
      ending := fun q x hm' => absurd hm' (hmid q x)
      one := fun q _ x _ hm' => absurd hm' (hmid q x)
      none_ending := ?none_ending
      seen := fun q x hc => absurd (.inr hc) (hmid q x)
      drainer := ?drainer }
  case returned_le =>
    have := he.finished
    simp only [Sys.ret]
    omega
  case returned =>
    simp only [Sys.ret, hlen, take_add_one, he.log, Option.toList]
    rw [← h.returned]
  case star =>
    intro k hk
    cases hk
    exact ⟨hi, hlt⟩
  case none_ending =>
    intro _
    exact hlen.trans he.finished.symm
  case drainer =>
    intro k hk
    have hk := h.drainer k hk
    rcases hstar with hnone | hsome
    · rw [hnone] at hk
      cases hk
    · exact hsome.symm.trans hk

theorem Inv.check (hw : s.writer pid = .assigned w) : Inv n (s.check pid w) := by
  unfold Sys.check
  split
  case h_1 hnone =>
    -- the writer stays the only one between assignment and return
    have hmid : ∀ q x, ({ s with writer := update s.writer pid (.checked w) }).Mid q x →
        s.Mid q x := by
      intro q x hm
      rcases hm.of_update rfl with ⟨rfl, hv⟩ | ⟨-, hq⟩
      · rcases hv with hv | hv <;> cases hv
        exact .inl hw
      · exact hq
    exact { h with
        toWriters := h.toWriters.update (Sys.Mid.ne_writing (.inl hw)) nofun
        ending := fun q x hm => h.ending q x (hmid q x hm)
        one := fun q q' x x' hm hm' => h.one q q' x x' (hmid q x hm) (hmid q' x' hm')
        none_ending := fun hno => absurd (.inr (update_self ..)) (hno pid w)
        seen := fun _ _ _ => hnone }
  case h_2 i hsome =>
    have hret := h.ret (.inl hw) i (h.star i hsome).1 (.inr hsome)
    rw [← hsome] at hret
    exact hret

theorem Inv.publish (hw : s.writer pid = .checked w) : Inv n (s.publish pid w) := by
  have hnone := h.seen pid w hw
  have he := h.ending pid w (.inr hw)
  have hi : w.iIndex = s.drained % n := by rw [he.index, h.unpublished hnone]
  unfold Sys.publish
  rw [hnone]
  exact h.ret (.inr hw) w.iIndex hi (.inl hnone)

end

/-! ## Steps of the drainer -/

section

variable (h : Inv n s)
include h

theorem Inv.setDrainer {d : Drainer} (hd : d.ahead = s.drainer.ahead)
    (hi : ∀ i, d.index = some i → s.iLogStarIndex = some i) : Inv n { s with drainer := d } :=
  { h with
    ahead := by rw [hd]; exact h.ahead
    drainer := hi
    file := by rw [hd]; exact h.file }

theorem Inv.drainStart (hidle : s.drainer = .idle) (m : Nat) : Inv n (s.drainStart m) := by
  unfold Sys.drainStart
  split
  case h_1 => exact h
  case h_2 i hsome =>
    exact h.setDrainer (by rw [hidle, Drainer.ahead_again, Drainer.ahead]) fun k hk => by
      rw [Drainer.index_again hk, ← hsome]

/-- The slot of the oldest record: its record, or its writer at work. -/
theorem Inv.oldest_slot (hmid : ∀ q x, ¬ s.Mid q x) (hlt : s.drained < s.taken.length) :
    (s.drained < s.returned.length ∧ ∃ log, s.taken[s.drained]? = some log ∧
        (s.sLogList (s.drained % n)).dwLogSeq ≠ 0 ∧
        (s.sLogList (s.drained % n)).log = some log) ∨
      (s.drained = s.returned.length ∧ ∃ q x, s.writer q = .writing x ∧
        (s.sLogList (s.drained % n)).dwLogSeq = 0 ∧
        (s.sLogList (s.drained % n)).dwStartWriteLogTime = x.start) := by
  have hpf := h.none_ending hmid
  rcases Nat.lt_or_eq_of_le h.drained_le with hin | heq
  · have hget : s.taken[s.drained]? = some (s.taken[s.drained]) := getElem?_eq_getElem hlt
    exact .inl ⟨hin, _, hget, h.done s.drained _ (Nat.le_refl _) (by omega) hget⟩
  · obtain ⟨q, x, hq, hx⟩ := h.busy s.drained (by omega) hlt
    have hwr := h.writing q x hq
    rw [← hx]
    exact .inr ⟨by omega, q, x, hq, hwr.slot, hwr.start⟩

theorem Inv.drainWrite (hl : s.drainer = .loop iLast i m)
    (hok : StepOk n s (.drainWrite now)) : Inv n (s.drainWrite now iLast i m) := by
  have hstar := h.drainer iLast (by rw [hl]; rfl)
  obtain ⟨hi, hlt⟩ := h.star iLast hstar
  have hfile := h.file
  rw [hl] at hfile
  unfold Sys.drainWrite
  rw [hi]
  rcases h.oldest_slot hok.atomic hlt with ⟨hin, log, hget, hseq, hlog⟩ | ⟨-, q, x, hq, hseq, hst⟩
  · rw [if_neg hseq, hlog]
    exact { h with
      ahead := hin
      drainer := fun k hk => by
        cases hk
        rw [hstar, hi]
      file := by
        simp only [Drainer.ahead, take_add_one, hget, hfile]
        rfl }
  · have hnow : ¬ x.start + 5 < now := Nat.not_lt.2 (hok.timely now rfl q x hq)
    rw [if_pos hseq, hst, if_neg hnow]
    exact h.setDrainer (by rw [hl]; rfl) fun k hk => nomatch hk

theorem Inv.drainCheck (hl : s.drainer = .wrote iLast i m) : Inv n (s.drainCheck iLast i m) := by
  have hstar := h.drainer iLast (by rw [hl]; rfl)
  unfold Sys.drainCheck
  rw [if_pos hstar]
  exact h.setDrainer (by rw [hl]; rfl) fun k hk => hstar.trans hk

theorem Inv.next_eq_iff (hlt : s.drained < s.taken.length) :
    next n (s.drained % n) = s.iWriteIndex ↔ s.drained + 1 = s.taken.length := by
  have hfits := h.fits
  rw [next_mod h.pos, h.write]
  constructor
  · intro heq
    exact mod_inj hlt (by omega) heq
  · intro heq
    rw [heq]

theorem Inv.drainAdvance (hl : s.drainer = .checked iLast i m) :
    Inv n (s.drainAdvance n iLast i m) := by
  have hstar := h.drainer iLast (by rw [hl]; rfl)
  obtain ⟨rfl, hlt⟩ := h.star iLast hstar
  have hfits := h.fits
  have hr := h.returned_le
  have hf := h.finished_le
  have hahead := h.ahead
  have hfile := h.file
  rw [hl] at hahead hfile
  -- no writer has seen -1: the ring is published
  have hseen : ∀ q x, s.writer q ≠ .checked x := by
    intro q x hc
    rw [h.seen q x hc] at hstar
    cases hstar
  have hdone : ∀ j log, s.drained + 1 ≤ j → j < s.finished → s.taken[j]? = some log →
      (s.sLogList (j % n)).dwLogSeq ≠ 0 ∧ (s.sLogList (j % n)).log = some log :=
    fun j log hj => h.done j log (le_of_succ_le hj)
  simp only [Drainer.ahead] at hahead
  unfold Sys.drainAdvance
  split
  case isTrue heq =>
    have hlast := (h.next_eq_iff hlt).1 heq
    exact { h with
      ahead := hahead
      fits := by simp only; omega
      star := fun k hk => nomatch hk
      unpublished := fun _ => by simp only; omega
      done := hdone
      seen := fun q x hc => absurd hc (hseen q x)
      drainer := fun k hk => nomatch hk
      file := hfile }
  case isFalse hne =>
    have hmore : s.drained + 1 ≠ s.taken.length := fun heq => hne ((h.next_eq_iff hlt).2 heq)
    have hnext := next_mod h.pos s.drained
    have hin : s.drained + 1 < s.taken.length := by omega
    exact { h with
      ahead := by rwa [Drainer.ahead_again]
      fits := by simp only; omega
      star := fun k hk => by
        cases hk
        exact ⟨hnext, hin⟩
      unpublished := fun hno => nomatch hno
      done := hdone
      seen := fun q x hc => absurd hc (hseen q x)
      drainer := fun k hk => by rw [Drainer.index_again hk]
      file := by rwa [Drainer.ahead_again] }

end

/-! ## Runs -/

/-- A step that meets its condition keeps the invariant. -/
theorem Inv.step_inv {l : Label R} (h : Inv n s) (hok : StepOk n s l)
    (hs : step n s l = some s') : Inv n s' := by
  cases l <;> simp only [step] at hs <;> split at hs <;> cases hs
  · exact h.take (by assumption) hok
  · exact h.assign (by assumption) hok
  · exact h.check (by assumption)
  · exact h.publish (by assumption)
  · exact h.drainStart (by assumption) _
  · exact h.drainWrite (by assumption) hok
  · exact h.drainCheck (by assumption)
  · exact h.drainAdvance (by assumption)

/-- The steps of `WriteFile` after its start, at the time `now`. -/
def Label.OfDrainer (now : Nat) : Label R → Prop
  | .drainWrite t => t = now
  | .drainCheck => True
  | .drainAdvance => True
  | _ => False

/-- What the ring is for. `drains` is the call of `WriteFile` that comes next: on
its own it writes every record that is left of those returned. -/
structure Delivered (n : Nat) (s : Sys R) : Prop where
  written : s.file <+: s.taken
  returned : s.returned <+: s.taken
  full : ∀ e ∈ s.errors, e = n
  empty : s.iLogStarIndex = none → s.file = s.returned
  drains : ∀ now m, s.drainer = .idle → (∀ q x, ¬ s.Mid q x) →
    (∀ q x, s.writer q = .writing x → now ≤ x.start + 5) →
    s.returned.length - s.drained ≤ m →
    ∃ ls s', (∀ l ∈ ls, Label.OfDrainer now l) ∧ run (step n) (.drainStart m :: ls) s = some s' ∧
      s'.drainer = .idle ∧ s'.file = s.returned

/-- A state in which only the drainer moves, at the time `now`. -/
structure Quiet (now : Nat) (s : Sys R) : Prop where
  mid : ∀ q x, ¬ s.Mid q x
  timely : ∀ q x, s.writer q = .writing x → now ≤ x.start + 5

theorem Quiet.drainWrite (h : Quiet now s) : StepOk n s (.drainWrite now) where
  atomic q x hm := absurd hm (h.mid q x)
  oldest _ _ he := nomatch he
  room _ _ _ he := nomatch he
  timely t he := by
    cases he
    exact h.timely

/-- One round of the loop of `WriteFile` with a returned record left. -/
theorem Inv.drain_round (h : Inv n s) (hq : Quiet now s)
    (hl : s.drainer = .loop iLast i m) (hin : s.drained < s.returned.length) :
    ∃ s', run (step n) [.drainWrite now, .drainCheck, .drainAdvance] s = some s' ∧
      Inv n s' ∧ Quiet now s' ∧ s'.returned = s.returned ∧ s'.drained = s.drained + 1 ∧
      ((s'.drainer = .idle ∧ s'.iLogStarIndex = none) ∨
        ∃ iNext, s'.drainer = .again iNext (i + 1) m) := by
  have hstar := h.drainer iLast (by rw [hl]; rfl)
  obtain ⟨hi, hlt⟩ := h.star iLast hstar
  have h1 := h.drainWrite hl hq.drainWrite
  have hdw : s.drainWrite now iLast i m =
      { s with drainer := .wrote iLast (i + 1) m
               file := s.file ++ (s.sLogList iLast).log.toList } := by
    rcases h.oldest_slot hq.mid hlt with ⟨-, log, -, hseq, -⟩ | ⟨heq, -⟩
    · unfold Sys.drainWrite
      rw [hi, if_neg hseq]
    · omega
  rw [hdw] at h1
  have h2 := h1.drainCheck rfl
  unfold Sys.drainCheck at h2
  rw [if_pos hstar] at h2
  have h3 := h2.drainAdvance rfl
  refine ⟨_, ?_, h3, ?_, ?_, ?_, ?_⟩
  · simp only [run, step, hl, hdw, Sys.drainCheck, if_pos hstar, Option.bind_some]
  all_goals unfold Sys.drainAdvance; split
  · exact ⟨hq.mid, hq.timely⟩
  · exact ⟨hq.mid, hq.timely⟩
  · rfl
  · rfl
  · rfl
  · rfl
  · exact .inl ⟨rfl, rfl⟩
  · exact .inr ⟨_, rfl⟩

/-- A drainer that is done has written what was returned. -/
theorem Inv.file_returned (h : Inv n s) (hidle : s.drainer = .idle)
    (hd : s.drained = s.returned.length) : s.file = s.returned := by
  have hfile := h.file
  rw [hidle, hd] at hfile
  exact hfile.trans h.returned.symm

/-- The drainer alone, from its loop with `k` returned records left: by
induction on `k`, one round of the loop for each. -/
theorem Inv.drain_loop (k : Nat) :
    ∀ {s : Sys R} {iLast i m}, Inv n s → Quiet now s → s.drainer = .loop iLast i m →
      s.returned.length = s.drained + k → k ≤ m - i →
      ∃ ls s', (∀ l ∈ ls, Label.OfDrainer now l) ∧ run (step n) ls s = some s' ∧
        s'.drainer = .idle ∧ s'.file = s.returned := by
  induction k with
  | zero =>
    intro s iLast i m h hq hl hk _
    have hstar := h.drainer iLast (by rw [hl]; rfl)
    obtain ⟨hi, hlt⟩ := h.star iLast hstar
    have hfile := h.file
    rw [hl] at hfile
    -- the oldest record is still being written: the loop ends there
    rcases h.oldest_slot hq.mid hlt with ⟨hin, -⟩ | ⟨-, q, x, hx, hseq, hst⟩
    · omega
    have hnow : ¬ x.start + 5 < now := Nat.not_lt.2 (hq.timely q x hx)
    have hdw : s.drainWrite now iLast i m = { s with drainer := .idle } := by
      unfold Sys.drainWrite
      rw [hi, if_pos hseq, hst, if_neg hnow]
    refine ⟨[.drainWrite now], { s with drainer := .idle }, by simp [Label.OfDrainer], ?_, rfl, ?_⟩
    · simp only [run, step, hl, hdw, Option.bind_some]
    · refine hfile.trans ?_
      rw [h.returned, hk]
      rfl
  | succ k ih =>
    intro s iLast i m h hq hl hk hm
    obtain ⟨s1, hrun, h1, hq1, hret, hdr, hnext⟩ := h.drain_round hq hl (by omega)
    have hround : ∀ l ∈ [Label.drainWrite (R := R) now, .drainCheck, .drainAdvance],
        l.OfDrainer now := by simp [Label.OfDrainer]
    have hk1 : s1.returned.length = s1.drained + k := by
      rw [hret, hdr, hk]
      omega
    rcases hnext with ⟨hidle, hnone⟩ | ⟨iNext, hagain⟩
    · refine ⟨_, s1, hround, hrun, hidle, ?_⟩
      rw [h1.file_returned hidle (h1.unpublished hnone), hret]
    unfold Drainer.again at hagain
    split at hagain
    · obtain ⟨ls, s2, hls, hrun2, hidle, hfile⟩ := ih h1 hq1 hagain hk1 (by omega)
      refine ⟨[.drainWrite now, .drainCheck, .drainAdvance] ++ ls, s2, ?_, ?_, hidle, ?_⟩
      · intro l hmem
        rcases mem_append.1 hmem with hmem | hmem
        · exact hround l hmem
        · exact hls l hmem
      · rw [run_append, hrun]
        exact hrun2
      · rw [hfile, hret]
    · refine ⟨_, s1, hround, hrun, hagain, ?_⟩
      rw [h1.file_returned hagain (by omega), hret]

theorem Inv.delivered (h : Inv n s) : Delivered n s where
  written := by
    rw [h.file]
    exact take_prefix ..
  returned := by
    rw [h.returned]
    exact take_prefix ..
  full := h.errors
  empty hnone := by
    apply h.file_returned _ (h.unpublished hnone)
    cases hdr : s.drainer with
    | idle => rfl
    | loop i _ _ | wrote i _ _ | checked i _ _ =>
      have := h.drainer i (by rw [hdr]; rfl)
      rw [hnone] at this
      cases this
  drains now m hidle hmid htimely hm := by
    have hd := h.drained_le
    have hstart := h.drainStart hidle m
    cases hstar : s.iLogStarIndex with
    | none =>
      refine ⟨[], s, by simp, ?_, hidle, h.file_returned hidle (h.unpublished hstar)⟩
      simp only [run, step, hidle, Sys.drainStart, hstar, Option.bind_some]
    | some i =>
      have hds : s.drainStart m = { s with drainer := .again i 0 m } := by
        unfold Sys.drainStart
        rw [hstar]
      have hrun : step n s (.drainStart m) = some (s.drainStart m) := by simp only [step, hidle]
      rw [hds] at hstart hrun
      by_cases hpos : 0 < m
      · have hag : Drainer.again i 0 m = .loop i 0 m := if_pos hpos
        rw [hag] at hstart hrun
        obtain ⟨ls, s', hls, hrun', hend⟩ := hstart.drain_loop
          (s.returned.length - s.drained) ⟨hmid, htimely⟩ rfl (by simp only; omega) hm
        exact ⟨ls, s', hls, by rw [run, hrun]; exact hrun', hend⟩
      · have hag : Drainer.again i 0 m = .idle := if_neg hpos
        rw [hag] at hrun
        refine ⟨[], _, by simp, by rw [run, hrun]; rfl, rfl, ?_⟩
        exact h.file_returned hidle (by omega)

/-- In a run in which writers finish in the order of their indexes, each
without an interruption from its assignment of `dwLogSeq` to its return, every
record whose call returned 0 is written once and in the order of the indexes,
and a call fails only when the ring is full. -/
theorem app_log_ring (hn : 0 < n) (ls : List (Label R)) (hr : run (step n) ls Sys.init = some s)
    (hm : Meets (step n) (StepOk n) ls Sys.init) : Delivered n s :=
  (run_keeps (fun _ _ _ h hok hs => h.step_inv hok hs) (Inv.init hn) hm hr).delivered

/-- Two calls that overlap, and the drainer, which writes the first record before the second
call has returned. -/
def overlapped : List (Label Nat) :=
  [.take 0 7 1, .take 1 8 1, .assign 0, .check 0, .publish 0, .drainStart 9, .drainWrite 2,
    .drainCheck, .assign 1, .check 1, .drainAdvance]

theorem overlapped_meets : Meets (step 3) (StepOk 3) overlapped Sys.init := by
  iterate 11
    refine ⟨?_, fun s hs => ?_⟩
    rotate_left
    cases hs
  · trivial
  all_goals
    constructor <;>
      simp [Sys.Mid, Sys.init, Sys.take, Sys.enter, Sys.assign, Sys.check, Sys.publish, Sys.ret,
        Sys.drainStart, Sys.drainWrite, Sys.drainCheck, Label.EndsCall, Drainer.again, Sys.dwSeq,
        Circular.next] <;>
      grind

/-- Both calls return 0; the record that is not yet in the file is written by the next rounds of
the drainer. -/
theorem app_log_ring_overlapped : ∃ s : Sys Nat, run (step 3) overlapped Sys.init = some s ∧
    s.returned = [7, 8] ∧ s.file = [7] ∧ Delivered 3 s :=
  ⟨_, rfl, by decide +kernel, by decide +kernel,
    app_log_ring (by decide) overlapped rfl overlapped_meets⟩

/-- Two processes take the slots 0 and 1, and the second finishes first. -/
def crossed : List (Label Nat) :=
  [.take 0 7 1, .take 1 8 1, .assign 1, .check 1, .publish 1, .assign 0, .check 0,
    .drainStart 9, .drainWrite 2, .drainCheck, .drainAdvance]

/-- Both calls return 0 within a second; the drainer writes the second record,
finds the ring empty, and the first is in no part of it that is ever read. -/
theorem app_log_ring_lost : ∃ s : Sys Nat, run (step 3) crossed Sys.init = some s ∧
      s.taken = [7, 8] ∧ s.returned = [8, 7] ∧ s.file = [8] ∧ s.iLogStarIndex = none ∧
      s.drainer = .idle :=
  ⟨_, rfl, by decide +kernel⟩

end DesPwd.L5.AppLogRing
