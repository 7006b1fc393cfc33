import DesPwd.L4App.LogDispatch

/-!
# slog_server: the frequency limit of a log packet, and the answer

`IsLogFreqOver` counts the records of a log config in a minute. The loop of
`OnRawDataClientLog` leaves at the first record over the limit, and the answer
is derived afterwards from the read offset, which already stands behind that
record: when it is the last of the packet the answer is `NO_ERROR`.

`Limiter` is the state of `IsLogFreqOver`; `freqLoop` is the loop of `LogDispatch`
with it.

* `freqLoop_answer`: the answer, by where the limit was hit.
* `freq_ack_iff`: `NO_ERROR` and `ERR_LOG_FREQ_OVER_LIMIT` tell whether a record
  was dropped exactly when the record that hits the limit is not the last one.
* `freq_ack_last`: two records, the second is dropped, the answer is `NO_ERROR`.
-/
namespace DesPwd.L4.LogFreq

open Bytes L1.BasicPacket L3.AgentReport L4.LogServer Option
  DesPwd.L4.LogDispatch

/-! ## The limiter -/

/-- `SLogClientConfig` as far as the limiter uses it.
mirrors lib/mtagent_api_open/supper_log.h:640-676 -/
structure SLogClientConfig where
  dwCfgId : Nat
  dwSpeedFreq : Nat
  dwLogFreqStartTime : Nat
  iLogWriteCount : Int
  deriving DecidableEq

/-- The entries of the shared memory, the entry that `slog.GetSlogConfig` finds
for an id, and the two static variables of `IsLogFreqOver`. -/
structure Limiter where
  config : Nat → SLogClientConfig
  getSlogConfig : Nat → Option Nat
  s_pLogConfig : Option Nat
  st_mapLogConfig : Nat → Option Nat

namespace Limiter

/-- mirrors slog_server/udp_sock.cpp:70-82 -/
def lookup (l : Limiter) (dwLogConfigId : Nat) : Limiter × Option Nat :=
  match l.st_mapLogConfig dwLogConfigId with
  | some p => ({ l with s_pLogConfig := some p }, some p)
  | none =>
    match l.getSlogConfig dwLogConfigId with
    | none => ({ l with s_pLogConfig := none }, none)
    | some p =>
      ({ l with
        s_pLogConfig := some p
        st_mapLogConfig := Function.update l.st_mapLogConfig dwLogConfigId (some p) }, some p)

/-- The entry of a config; the last one is kept in `s_pLogConfig`. -/
def find (l : Limiter) (dwLogConfigId : Nat) : Limiter × Option Nat :=
  match l.s_pLogConfig with
  | some p => if (l.config p).dwCfgId ≠ dwLogConfigId then l.lookup dwLogConfigId else (l, some p)
  | none => l.lookup dwLogConfigId

def setConfig (l : Limiter) (p : Nat) (cfg : SLogClientConfig) : Limiter :=
  { l with config := Function.update l.config p cfg }

/-- `IsLogFreqOver`; `now` is `stConfig.dwCurrentTime`.
mirrors udp_sock.cpp:65-103 -/
def isLogFreqOver (l : Limiter) (now dwLogConfigId : Nat) : Limiter × Bool :=
  match l.find dwLogConfigId with
  | (l, none) => (l, false)
  | (l, some p) =>
    let cfg := l.config p
    if cfg.dwSpeedFreq ≠ 0 then
      if cfg.dwLogFreqStartTime ≤ 0 ∨ (cfg.dwLogFreqStartTime + 60) % 2 ^ 32 ≤ now then
        (l.setConfig p { cfg with dwLogFreqStartTime := now, iLogWriteCount := 1 }, false)
      else if toS32 cfg.dwSpeedFreq ≤ cfg.iLogWriteCount + 1 then (l, true)
      else (l.setConfig p { cfg with iLogWriteCount := cfg.iLogWriteCount + 1 }, false)
    else (l, false)

end Limiter

/-! ## The loop -/

/-- The answers of `IsLogFreqOver` taken from `f`. -/
def withFreq (c : LogCtx) (f : Nat → Nat → Bool) : LogCtx := { c with isLogFreqOver := f }

/-- The config for which a record asks the limiter, if it does.
mirrors udp_sock.cpp:517-548 -/
def asks (c : LogCtx) (r : Report) (st : LogLoop) : Option Nat := do
  let info ← logInfoNtoH r.content st.iRead
  if r.wCmdContentLen < st.iRead + logInfoLen + info.wCustDataLen + info.wLogDataLen then none
  else match c.getAppInfo info.iAppId with
  | none => none
  | some _ => if info.wLogType &&& slogLevelPluginTable ≠ 0 then none else some info.dwLogConfigId

/-- One record with the limiter. -/
def freqRecord (c : LogCtx) (now : Nat) (r : Report) (l : Limiter) (st : LogLoop) :
    Option (Next × Limiter) := do
  let nx ← logRecord (withFreq c fun _ id => (l.isLogFreqOver now id).2) r st
  match asks c r st with
  | none => pure (nx, l)
  | some id => pure (nx, (l.isLogFreqOver now id).1)

/-- The loop over the records with the limiter, `n` bounds its rounds.
mirrors udp_sock.cpp:515-608 -/
def freqLoop (c : LogCtx) (now : Nat) (r : Report) :
    Nat → Limiter → LogLoop → Option (List LogEffect × Option Err × Limiter)
  | 0, _, _ => none
  | n + 1, l, st => do
    if st.iRead + logInfoLen < r.wCmdContentLen then
      match ← freqRecord c now r l st with
      | (.go st, l) => freqLoop c now r n l st
      | (.brk st, l) => pure (st.effects, logAck r st, l)
      | (.ret st e, l) => pure (st.effects, some e, l)
    else pure (st.effects, logAck r st, l)

/-- The variables before the loop. -/
def start (c : LogCtx) : LogLoop := ⟨0, 0, none, c.mapAppLogShm, []⟩

/-- mirrors udp_sock.cpp:510-608 -/
def freqLogs (c : LogCtx) (now : Nat) (l : Limiter) (r : Report) :
    Option (List LogEffect × Option Err × Limiter) :=
  freqLoop c now r (r.wCmdContentLen + 1) l (start c)

/-- What was written, and the answer. -/
def answer (c : LogCtx) (now : Nat) (l : Limiter) (r : Report) :
    Option (List LogEffect × Option Err) :=
  (freqLogs c now l r).map fun x => (x.1, x.2.1)

/-! ## The answer -/

/-- The offset behind the record at `iRead`. -/
def recordEnd (r : Report) (iRead : Nat) : Option Nat := do
  let info ← logInfoNtoH r.content iRead
  pure (iRead + logInfoLen + info.wCustDataLen + info.wLogDataLen)

/-- The record asks the limiter and is over the limit. -/
def isOver (c : LogCtx) (now : Nat) (r : Report) (l : Limiter) (st : LogLoop) : Bool :=
  (asks c r st).any fun id => (l.isLogFreqOver now id).2

/-- The end of the first record that is over the limit, if the loop comes to
one. -/
def overAt (c : LogCtx) (now : Nat) (r : Report) : Nat → Limiter → LogLoop → Option Nat
  | 0, _, _ => none
  | n + 1, l, st =>
    if st.iRead + logInfoLen < r.wCmdContentLen then
      if isOver c now r l st then recordEnd r st.iRead
      else match freqRecord c now r l st with
      | some (.go st, l) => overAt c now r n l st
      | _ => none
    else none

/-- What a record does to the loop, by the limiter's answer. -/
structure Decided (lim : Bool) (r : Report) (st : LogLoop) (nx : Next) : Prop where
  brk : lim = true → ∃ st', nx = .brk st' ∧ recordEnd r st.iRead = some st'.iRead
  goOn : lim = false → ∀ st', nx ≠ .brk st'
  ret : ∀ st' e, nx = .ret st' e → e ≠ .logFreqOverLimit

namespace Decided

variable {r : Report} {st st' : LogLoop} {e : Err}

theorem of_go : Decided false r st (.go st') := ⟨nofun, nofun, nofun⟩

theorem of_ret (he : e ≠ .logFreqOverLimit) : Decided false r st (.ret st' e) :=
  ⟨nofun, nofun, by
    rintro _ _ ⟨⟩
    exact he⟩

end Decided

variable {c : LogCtx} {r : Report}

theorem logRecord_decided {st : LogLoop} {nx : Next} (h : logRecord c r st = some nx) :
    Decided ((asks c r st).any (c.isLogFreqOver (st.count + 1))) r st nx := by
  unfold logRecord at h
  simp only [bind_eq_bind, bind_eq_some_iff] at h
  obtain ⟨info, hi, h⟩ := h
  have hend : recordEnd r st.iRead =
      some (st.iRead + logInfoLen + info.wCustDataLen + info.wLogDataLen) := by
    rw [recordEnd, hi]
    rfl
  unfold asks
  rw [hi]
  simp only [bind_eq_bind, bind_some]
  split at h
  · rename_i hlen
    cases h
    rw [if_pos hlen]
    exact .of_ret (by decide)
  rename_i hlen
  rw [if_neg hlen]
  cases happ : c.getAppInfo info.iAppId with
  | none =>
    simp only [happ] at h
    cases h
    exact .of_go
  | some app =>
    simp only [happ] at h
    split at h
    · -- a row of a plugin table does not ask the limiter
      rename_i hplug
      rw [if_pos hplug]
      split at h
      · cases h
        exact .of_ret (by decide)
      · simp only [bind_eq_some_iff] at h
        obtain ⟨es, -, he⟩ := h
        cases he
        exact .of_go
    rename_i hplug
    rw [if_neg hplug, any_some]
    split at h
    · rename_i hfreq
      cases h
      rw [hfreq]
      exact ⟨fun _ => ⟨_, rfl, hend⟩, fun h => (by cases h), fun _ _ h => (by cases h)⟩
    · rename_i hfreq
      rw [Bool.eq_false_iff.mpr hfreq]
      split at h
      · cases h
        exact .of_ret (by decide)
      split at h
      · cases h
        exact .of_ret (by decide)
      · cases h
        exact .of_go

theorem freqRecord_decided {now : Nat} {l l' : Limiter} {st : LogLoop}
    {nx : Next} (h : freqRecord c now r l st = some (nx, l')) :
    Decided (isOver c now r l st) r st nx := by
  obtain ⟨nx', hr, he⟩ := bind_eq_some_iff.mp h
  have hnx : nx' = nx := by
    split at he <;> cases he <;> rfl
  subst hnx
  exact logRecord_decided hr

/-- **The answer.** When the limit was hit it depends on what is left behind
that record; else it is not `ERR_LOG_FREQ_OVER_LIMIT`. -/
theorem freqLoop_answer {now : Nat} {es : List LogEffect} {ack : Option Err} {l' : Limiter} :
    ∀ {n} {l} {st}, freqLoop c now r n l st = some (es, ack, l') →
      match overAt c now r n l st with
      | some i => ack = if i + logInfoLen < r.wCmdContentLen then some .logFreqOverLimit else none
      | none => ack ≠ some .logFreqOverLimit
  | 0, _, _, h => by cases h
  | n + 1, l, st, h => by
    unfold freqLoop at h
    unfold overAt
    by_cases hl : st.iRead + logInfoLen < r.wCmdContentLen
    · rw [if_pos hl] at h ⊢
      obtain ⟨⟨nx, l1⟩, hr, h⟩ := bind_eq_some_iff.mp h
      have hd := freqRecord_decided hr
      cases ho : isOver c now r l st with
      | true =>
        obtain ⟨st', rfl, hend⟩ := hd.brk ho
        rw [hend]
        cases h
        rfl
      | false =>
        rw [hr]
        cases nx with
        | go st' => exact freqLoop_answer h
        | brk st' => exact absurd rfl (hd.goOn ho st')
        | ret st' e =>
          cases h
          exact fun he => hd.ret st' e rfl (Option.some.inj he)
    · rw [if_neg hl] at h ⊢
      cases h
      rw [logAck, if_neg hl]
      exact nofun

/-- **What the answer tells.** `NO_ERROR` only when no record was dropped by the
limiter, and `ERR_LOG_FREQ_OVER_LIMIT` only when one was, exactly when behind the
record that hit the limit more than a `LogInfo` is left. -/
theorem freq_ack_iff (c : LogCtx) (now : Nat) (l : Limiter) (r : Report) (es : List LogEffect)
    (ack : Option Err) (l' : Limiter) (h : freqLogs c now l r = some (es, ack, l')) :
    ((ack = none → overAt c now r (r.wCmdContentLen + 1) l (start c) = none) ∧
      (ack = some .logFreqOverLimit → overAt c now r (r.wCmdContentLen + 1) l (start c) ≠ none)) ↔
    ∀ i, overAt c now r (r.wCmdContentLen + 1) l (start c) = some i →
      i + logInfoLen < r.wCmdContentLen := by
  have ha := freqLoop_answer h
  cases ho : overAt c now r (r.wCmdContentLen + 1) l (start c) with
  | none =>
    rw [ho] at ha
    exact iff_of_true ⟨fun _ => rfl, fun he => absurd he ha⟩ nofun
  | some i =>
    rw [ho] at ha
    dsimp only at ha
    by_cases hi : i + logInfoLen < r.wCmdContentLen
    · rw [if_pos hi] at ha
      subst ha
      refine iff_of_true ⟨nofun, fun _ => nofun⟩ fun j hj => ?_
      cases hj
      exact hi
    · rw [if_neg hi] at ha
      subst ha
      exact iff_of_false (fun hc => by cases hc.1 rfl) fun hc => hi (hc i rfl)

/-- Config 1 of two records a minute, not yet used. -/
def twoPerMinute : Limiter where
  config := fun _ => ⟨1, 2, 0, 0⟩
  getSlogConfig := fun _ => some 0
  s_pLogConfig := none
  st_mapLogConfig := fun _ => none

theorem freq_ack_iff_three_records :
    let r : Report := ⟨⟨7, []⟩, logOf 1 ++ logOf 1 ++ logOf 1, 93, 0⟩
    let overEnd := overAt twoApps 100 r 94 twoPerMinute (start twoApps)
    ∃ es ack l', freqLogs twoApps 100 twoPerMinute r = some (es, ack, l') ∧
      (((ack = none → overEnd = none) ∧ (ack = some .logFreqOverLimit → overEnd ≠ none)) ↔
        ∀ i, overEnd = some i → i + logInfoLen < 93) := by
  intro r
  have hsome : (freqLogs twoApps 100 twoPerMinute r).isSome := by decide +kernel
  obtain ⟨⟨es, ack, l'⟩, h⟩ := isSome_iff_exists.mp hsome
  exact ⟨es, ack, l', h, freq_ack_iff _ _ _ _ es ack l' h⟩

/-- Two records of the config: the second one is over the limit and not
written, and the answer is `NO_ERROR`. -/
theorem freq_ack_last : answer twoApps 100 twoPerMinute ⟨⟨7, []⟩, logOf 1 ++ logOf 1, 62, 0⟩ =
        some ([.appLog ⟨1⟩ ⟨1, 1, 1, 1, 4, 0, 0, 1⟩ [65] 7], none) ∧
      overAt twoApps 100 ⟨⟨7, []⟩, logOf 1 ++ logOf 1, 62, 0⟩ 63 twoPerMinute (start twoApps) =
        some 62 := by
  decide +kernel

end DesPwd.L4.LogFreq
