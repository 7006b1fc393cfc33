import DesPwd.L4App.ReportAuth

/-!
# slog_server: which ring a log record goes to

The loop of `OnRawDataClientLog` keeps the ring of the last record in `pLogShm`.
For a record of another app it looks into `mapAppLogShm`, but asks
`GetAppLogShm` only while there is no ring at all: a record of an app that is not
in the map goes to the ring of a record before it.

`fate` is what happens to a record as far as the ring does not matter, `lookups`
the records of a packet for which a ring is looked for.

* `Inv`, `Phase`: from the first lookup on, the ring at hand is in the map, and the
  map has grown by the app of that lookup at most.
* `log_dispatch_iff`: a packet's records all go to their own app's ring exactly
  when each of them has an app that was in the map before, or the app of the
  first lookup.
* `log_dispatch_wrong`: a record of app 2 in the ring of app 1.
-/
namespace DesPwd.L4.LogDispatch

open Bytes L3.AgentReport L4.LogServer List Option

/-! ## The records of a packet -/

/-- What happens to a record whatever `pLogShm` is. -/
inductive Fate where
  /-- the loop ends -/
  | stop
  /-- no log of an app; the next record is at `iNext` -/
  | skip (iNext : Nat)
  | lookup (app : AppInfo) (info : LogInfo) (iNext : Nat)

/-- mirrors slog_server/udp_sock.cpp:517-559 -/
def fate (c : LogCtx) (r : Report) (iRead count : Nat) : Option Fate := do
  let info ← logInfoNtoH r.content iRead
  let iNext := iRead + logInfoLen + info.wCustDataLen + info.wLogDataLen
  if r.wCmdContentLen < iNext then pure .stop
  else match c.getAppInfo info.iAppId with
  | none => pure (.skip iNext)
  | some app =>
    if info.wLogType &&& slogLevelPluginTable ≠ 0 then
      if !isIpMatchMachine c.localIps app.dwAppSrvMaster then pure .stop else pure (.skip iNext)
    else if c.isLogFreqOver (count + 1) info.dwLogConfigId then pure .stop
    else if !isIpMatchMachine c.localIps app.dwAppSrvMaster then pure .stop
    else pure (.lookup app info iNext)

/-- The apps of the records for which a ring is looked for, with the number of
the record. -/
def lookups (c : LogCtx) (r : Report) : Nat → Nat → Nat → List (Int × Nat)
  | 0, _, _ => []
  | n + 1, iRead, count =>
    if iRead + logInfoLen < r.wCmdContentLen then
      match fate c r iRead count with
      | some (.skip iNext) => lookups c r n iNext (count + 1)
      | some (.lookup app _ iNext) => (app.iAppId, count + 1) :: lookups c r n iNext (count + 1)
      | _ => []
    else []

/-- The variables of `logLoop` when it ends. -/
def endLoop (c : LogCtx) (r : Report) : Nat → LogLoop → Option LogLoop
  | 0, _ => none
  | n + 1, st => do
    if st.iRead + logInfoLen < r.wCmdContentLen then
      match ← logRecord c r st with
      | .go st => endLoop c r n st
      | .brk st => pure st
      | .ret st _ => pure st
    else pure st

variable {c : LogCtx} {r : Report} {n : Nat} {st : LogLoop} {es : List LogEffect} {first : Int}

theorem logLoop_eq_some {ack : Option L1.BasicPacket.Err} (h : logLoop c r n st = some (es, ack)) :
    ∃ st', endLoop c r n st = some st' ∧ st'.effects = es := by
  induction n generalizing st with
  | zero => cases h
  | succ n ih =>
    unfold logLoop at h
    unfold endLoop
    by_cases hl : st.iRead + logInfoLen < r.wCmdContentLen
    · rw [if_pos hl] at h ⊢
      cases hr : logRecord c r st with
      | none => simp [hr] at h
      | some nx =>
        cases nx with
        | go st1 => exact ih (by simpa [hr] using h)
        | brk st1 =>
          rw [hr] at h
          cases h
          exact ⟨st1, rfl, rfl⟩
        | ret st1 e =>
          rw [hr] at h
          cases h
          exact ⟨st1, rfl, rfl⟩
    · rw [if_neg hl] at h ⊢
      cases h
      exact ⟨st, rfl, rfl⟩

/-! ## One record -/

/-- Each log is in the ring of its app. -/
def OwnRings (es : List LogEffect) : Prop :=
  ∀ shm info sLog iHostId, LogEffect.appLog shm info sLog iHostId ∈ es → shm.iAppId = info.iAppId

/-- Each mapped ring belongs to its app. -/
def MapOk (m : Int → Option LogShm) : Prop := ∀ i shm, m i = some shm → shm.iAppId = i

/-- What the tables answer: `GetAppInfo` finds an entry by its id, and
`GetAppLogShm` has set the ring's app. -/
structure Belongs (c : LogCtx) : Prop where
  map : MapOk c.mapAppLogShm
  app : ∀ i app, c.getAppInfo i = some app → app.iAppId = i
  shm : MapOk c.getAppLogShm

/-- The loop goes on with the next record, nothing was written to a ring. -/
structure Skipped (st st' : LogLoop) (iNext : Nat) : Prop where
  iRead : st'.iRead = iNext
  count : st'.count = st.count + 1
  pLogShm : st'.pLogShm = st.pLogShm
  map : st'.mapAppLogShm = st.mapAppLogShm
  own : OwnRings st'.effects ↔ OwnRings st.effects

theorem savePluginTableRecords_own {k : Nat} {info : LogInfo} {sLog : Bytes}
    {iHostId : Int} {es' : List LogEffect}
    (h : savePluginTableRecords c k info sLog iHostId = some es) :
    OwnRings (es' ++ es) ↔ OwnRings es' := by
  have hno : ∀ shm info sLog iHostId, LogEffect.appLog shm info sLog iHostId ∉ es := by
    unfold savePluginTableRecords at h
    split at h
    · cases h
      simp
    split at h
    · cases h
      simp
    dsimp only at h
    split at h
    · cases h
      simp
    split at h
    · cases h
      simp
    · simp only [bind_eq_bind, bind_eq_some_iff] at h
      obtain ⟨v, -, hv⟩ := h
      cases hv
      simp
  unfold OwnRings
  simp [hno]

/-- The record is counted and read past. -/
def advance (st : LogLoop) (iNext : Nat) : LogLoop :=
  { st with iRead := iNext, count := st.count + 1 }

/-- What one record does, by its fate. -/
inductive Outcome (c : LogCtx) (st : LogLoop) : Fate → Next → Prop where
  | stop {nx st'} (hn : nx = .brk st' ∨ ∃ e, nx = .ret st' e)
      (hm : st'.mapAppLogShm = st.mapAppLogShm) (he : st'.effects = st.effects) :
      Outcome c st .stop nx
  | skip {st' iNext} (h : Skipped st st' iNext) : Outcome c st (.skip iNext) (.go st')
  | noRing {app info iNext} (hf : findLogShm c (advance st iNext) app = none) :
      Outcome c st (.lookup app info iNext) (.ret (advance st iNext) .invalidAppid)
  | write {app info iNext shm st1 sLog iHostId} (happ : c.getAppInfo info.iAppId = some app)
      (hf : findLogShm c (advance st iNext) app = some (shm, st1)) :
      Outcome c st (.lookup app info iNext) (.go (writeLog c st1 shm info sLog iHostId))

theorem logRecord_outcome {nx : Next} (h : logRecord c r st = some nx) :
    ∃ f, fate c r st.iRead st.count = some f ∧ Outcome c st f nx := by
  unfold logRecord at h
  simp only [bind_eq_bind, bind_eq_some_iff] at h
  obtain ⟨info, hi, h⟩ := h
  simp only [fate, hi, bind_eq_bind, bind_some]
  split at h
  · rename_i hlen
    cases h
    rw [if_pos hlen]
    exact ⟨_, rfl, .stop (.inr ⟨_, rfl⟩) rfl rfl⟩
  · rename_i hlen
    rw [if_neg hlen]
    cases happ : c.getAppInfo info.iAppId with
    | none =>
      simp only [happ] at h
      cases h
      exact ⟨_, rfl, .skip ⟨rfl, rfl, rfl, rfl, Iff.rfl⟩⟩
    | some app =>
      simp only [happ] at h
      dsimp only
      split at h
      · rename_i hplug
        rw [if_pos hplug]
        split at h
        · rename_i hip
          cases h
          rw [if_pos hip]
          exact ⟨_, rfl, .stop (.inr ⟨_, rfl⟩) rfl rfl⟩
        · rename_i hip
          rw [if_neg hip]
          simp only [bind_eq_some_iff] at h
          obtain ⟨es, hes, h⟩ := h
          cases h
          exact ⟨_, rfl, .skip ⟨rfl, rfl, rfl, rfl, savePluginTableRecords_own hes⟩⟩
      · rename_i hplug
        rw [if_neg hplug]
        split at h
        · rename_i hfreq
          cases h
          rw [if_pos hfreq]
          exact ⟨_, rfl, .stop (.inl rfl) rfl rfl⟩
        · rename_i hfreq
          rw [if_neg hfreq]
          split at h
          · rename_i hip
            cases h
            rw [if_pos hip]
            exact ⟨_, rfl, .stop (.inr ⟨_, rfl⟩) rfl rfl⟩
          · rename_i hip
            rw [if_neg hip]
            split at h
            · rename_i hf
              cases h
              exact ⟨_, rfl, .noRing hf⟩
            · rename_i shm st1 hf
              cases h
              exact ⟨_, rfl, .write happ hf⟩

/-! ## The rings -/

/-- The apps that have their ring in the map from the lookup of `first` on. -/
def Known (c : LogCtx) (first a : Int) : Prop := (c.mapAppLogShm a).isSome ∨ a = first

/-- The variables after the lookup of `first`. -/
structure Inv (c : LogCtx) (first : Int) (st : LogLoop) : Prop where
  ring : ∃ shm i, st.pLogShm = some shm ∧ st.mapAppLogShm i = some shm
  map : MapOk st.mapAppLogShm
  known : ∀ a, (st.mapAppLogShm a).isSome ↔ Known c first a

theorem findLogShm_isSome (c : LogCtx) (st : LogLoop) (hp : st.pLogShm = none)
    (hm : st.mapAppLogShm = c.mapAppLogShm) (app : AppInfo) :
    (findLogShm c st app).isSome ↔
      (c.mapAppLogShm app.iAppId).isSome ∨ (c.getAppLogShm app.iAppId).isSome := by
  unfold LogServer.findLogShm
  rw [hp, hm]
  cases c.mapAppLogShm app.iAppId <;> simp

theorem ownRings_append {es' : List LogEffect} :
    OwnRings (es ++ es') ↔ OwnRings es ∧ OwnRings es' := by
  unfold OwnRings
  simp only [mem_append]
  constructor
  · intro h
    exact ⟨fun _ _ _ _ he => h _ _ _ _ (.inl he), fun _ _ _ _ he => h _ _ _ _ (.inr he)⟩
  · rintro ⟨h, h'⟩ _ _ _ _ (he | he)
    · exact h _ _ _ _ he
    · exact h' _ _ _ _ he

/-- The record that is written is in the ring of its app, or the write fails. -/
theorem writeLog_own (c : LogCtx) (st : LogLoop) (shm : LogShm) (info : LogInfo) (sLog : Bytes)
    (iHostId : Int) :
    OwnRings (writeLog c st shm info sLog iHostId).effects ↔
      OwnRings st.effects ∧ (c.writeOk st.count = true → shm.iAppId = info.iAppId) := by
  unfold writeLog
  cases hw : c.writeOk st.count with
  | false => simp
  | true =>
    simp only [if_true, ownRings_append, true_imp_iff]
    apply and_congr_right
    intro _
    unfold OwnRings
    simp only [mem_singleton]
    constructor
    · intro h
      have := h _ _ _ _ rfl
      split at this <;> exact this
    · intro h shm' info' sLog' iHostId' he
      cases he
      split <;> exact h

theorem writeLog_frame (c : LogCtx) (st : LogLoop) (shm : LogShm) (info : LogInfo) (sLog : Bytes)
    (iHostId : Int) :
    (writeLog c st shm info sLog iHostId).pLogShm = st.pLogShm ∧
      (writeLog c st shm info sLog iHostId).mapAppLogShm = st.mapAppLogShm ∧
      (writeLog c st shm info sLog iHostId).count = st.count := by
  unfold writeLog
  cases c.writeOk st.count <;> simp

/-! ## The loop -/

/-- The records of a packet that are written after the first lookup have a known
app; when the first lookup finds no ring, the packet ends there. -/
def AppsKnown (c : LogCtx) : List (Int × Nat) → Prop
  | [] => True
  | (first, _) :: rest =>
    (c.mapAppLogShm first).isSome ∨ (c.getAppLogShm first).isSome →
      ∀ x ∈ rest, c.writeOk x.2 = true → Known c first x.1

/-- Before the first lookup and after it, with what is asked of the lookups that
are left. -/
inductive Phase (c : LogCtx) (st : LogLoop) : (List (Int × Nat) → Prop) → Prop where
  | before (hp : st.pLogShm = none) (hm : st.mapAppLogShm = c.mapAppLogShm) :
      Phase c st (AppsKnown c)
  | after (first : Int) (hi : Inv c first st) :
      Phase c st fun xs => ∀ x ∈ xs, c.writeOk x.2 = true → Known c first x.1

namespace Phase

variable {K : List (Int × Nat) → Prop} {st1 : LogLoop} {app : AppInfo} {shm : LogShm}

theorem map (hc : Belongs c) (h : Phase c st K) : MapOk st.mapAppLogShm := by
  cases h with
  | before hp hm => rw [hm]; exact hc.map
  | after _ hi => exact hi.map

theorem nil (h : Phase c st K) : K [] := by
  cases h with
  | before hp hm => trivial
  | after _ hi => exact nofun

theorem congr (h : Phase c st K) (hp' : st1.pLogShm = st.pLogShm)
    (hm' : st1.mapAppLogShm = st.mapAppLogShm) : Phase c st1 K := by
  cases h with
  | before hp hm => exact .before (hp'.trans hp) (hm'.trans hm)
  | after _ hi => exact .after _ ⟨by rw [hp', hm']; exact hi.ring, by rw [hm']; exact hi.map,
      by rw [hm']; exact hi.known⟩

theorem not_found (h : Phase c st K) (hf : findLogShm c st app = none) (k : Nat)
    (xs : List (Int × Nat)) : K ((app.iAppId, k) :: xs) := by
  cases h with
  | before hp hm =>
    have hno := findLogShm_isSome c st hp hm app
    rw [hf] at hno
    exact fun hs => absurd (hno.mpr hs) (by simp)
  | after _ hi =>
    obtain ⟨shm, i, hp, -⟩ := hi.ring
    unfold findLogShm at hf
    rw [hp] at hf
    dsimp only at hf
    split at hf <;> cases hf

/-- A ring is found: that of the app at the first lookup, later for a known app. -/
theorem found (hc : Belongs c) (h : Phase c st K) (hf : findLogShm c st app = some (shm, st1)) :
    ∃ K', Phase c st1 K' ∧ st1.effects = st.effects ∧ st1.iRead = st.iRead ∧
      st1.count = st.count ∧ ∀ k xs, K ((app.iAppId, k) :: xs) ↔
        (c.writeOk k = true → shm.iAppId = app.iAppId) ∧ K' xs := by
  cases h with
  | before hp hm =>
    have hring := (findLogShm_isSome c st hp hm app).mp (by simp [hf])
    unfold findLogShm at hf
    rw [hp] at hf
    cases hs : st.mapAppLogShm app.iAppId with
    | some shm' =>
      rw [hs] at hf
      cases hf
      have hmap : MapOk st.mapAppLogShm := by rw [hm]; exact hc.map
      refine ⟨_, .after app.iAppId ⟨⟨shm, _, rfl, hs⟩, hmap, fun a => ?_⟩, rfl, rfl,
        rfl, fun k xs => ?_⟩
      · unfold Known
        rw [← hm]
        constructor
        · exact Or.inl
        · rintro (ha | rfl)
          · exact ha
          · simp [hs]
      · simp [AppsKnown, hring, hmap _ _ hs, true_and]
    | none =>
      rw [hs] at hf
      obtain ⟨shm', hg, he⟩ := map_eq_some_iff.mp hf
      cases he
      refine ⟨_, .after app.iAppId ⟨⟨shm, app.iAppId, rfl, if_pos rfl⟩, ?_,
        fun a => ?_⟩, rfl, rfl, rfl, fun k xs => ?_⟩
      · intro i shm' hi
        dsimp only at hi
        split at hi
        · rename_i he
          cases hi
          rw [he]
          exact hc.shm _ _ hg
        · exact hc.map _ _ (hm ▸ hi)
      · unfold Known
        rw [← hm]
        by_cases ha : a = app.iAppId <;> simp [ha]
      · simp [AppsKnown, hring, hc.shm _ _ hg, true_and]
  | after first hi =>
    obtain ⟨shm', i, hp, hs⟩ := hi.ring
    have hid : shm'.iAppId = i := hi.map i shm' hs
    have hown : Inv c first st1 ∧ st1.effects = st.effects ∧ st1.iRead = st.iRead ∧
        st1.count = st.count ∧ (shm.iAppId = app.iAppId ↔ Known c first app.iAppId) := by
      unfold findLogShm at hf
      rw [hp] at hf
      dsimp only at hf
      rw [← hi.known]
      split at hf
      · rename_i he
        cases hf
        refine ⟨hi, rfl, rfl, rfl, ?_⟩
        rw [← he, hid, hs]
        simp
      · rename_i he
        cases hm : st.mapAppLogShm app.iAppId with
        | none =>
          rw [hm] at hf
          cases hf
          exact ⟨⟨⟨_, i, rfl, hs⟩, hi.map, hi.known⟩, rfl, rfl, rfl, by simpa using he⟩
        | some shm'' =>
          rw [hm] at hf
          cases hf
          exact ⟨⟨⟨_, _, rfl, hm⟩, hi.map, hi.known⟩, rfl, rfl, rfl, by simpa using hi.map _ _ hm⟩
    obtain ⟨hi1, he, hread, hcount, hiff⟩ := hown
    refine ⟨_, .after first hi1, he, hread, hcount, fun k xs => ?_⟩
    rw [hiff]
    exact forall_mem_cons

end Phase

theorem endLoop_iff (hc : Belongs c) {K : List (Int × Nat) → Prop} {st' : LogLoop}
    (hk : Phase c st K) (h : endLoop c r n st = some st') :
    MapOk st'.mapAppLogShm ∧
      (OwnRings st'.effects ↔ OwnRings st.effects ∧ K (lookups c r n st.iRead st.count)) := by
  induction n generalizing st K with
  | zero => cases h
  | succ n ih =>
    unfold endLoop at h
    unfold lookups
    by_cases hl : st.iRead + logInfoLen < r.wCmdContentLen
    · rw [if_pos hl] at h ⊢
      simp only [bind_eq_bind, bind_eq_some_iff] at h
      obtain ⟨nx, hr, h⟩ := h
      obtain ⟨f, hf, ho⟩ := logRecord_outcome hr
      rw [hf]
      cases ho with
      | @stop _ st1 hn hm he =>
        obtain rfl : st1 = st' := by
          rcases hn with rfl | ⟨e, rfl⟩ <;> cases h <;> rfl
        rw [hm, he]
        exact ⟨hk.map hc, (and_iff_left hk.nil).symm⟩
      | skip hs =>
        have := ih (hk.congr hs.pLogShm hs.map) h
        rw [hs.own, hs.iRead, hs.count] at this
        exact this
      | @noRing app info iNext hn =>
        cases h
        have hk' : Phase c (advance st iNext) K := hk.congr rfl rfl
        exact ⟨hk'.map hc, (and_iff_left (hk'.not_found hn _ _)).symm⟩
      | @write app info iNext shm st1 sLog iHostId happ hs =>
        have hk' : Phase c (advance st iNext) K := hk.congr rfl rfl
        obtain ⟨K', hk1, he, hread, hcount, hiff⟩ := hk'.found hc hs
        obtain ⟨hwp, hwm, hwc⟩ := writeLog_frame c st1 shm info sLog iHostId
        obtain ⟨hmap, hiff'⟩ := ih (hk1.congr hwp hwm) h
        refine ⟨hmap, ?_⟩
        rw [hiff', writeLog_own, he, writeLog_iRead, hread, hwc, hcount, ← hc.app _ _ happ, and_assoc,
          hiff]
        rfl
    · rw [if_neg hl] at h ⊢
      cases h
      exact ⟨hk.map hc, (and_iff_left hk.nil).symm⟩

/-- For every packet and every state of the tables in which each ring belongs to
its app: the logs go to the rings of their apps, and the map stays right, if
and only if the apps of the packet are known. -/
theorem log_dispatch_iff (c : LogCtx) (hc : Belongs c) (r : Report) (es : List LogEffect)
    (ack : Option L1.BasicPacket.Err) (h : writeLogs c r = some (es, ack)) :
    ∃ st', endLoop c r (r.wCmdContentLen + 1) ⟨0, 0, none, c.mapAppLogShm, []⟩ = some st' ∧
      st'.effects = es ∧
      (OwnRings es ∧ MapOk st'.mapAppLogShm ↔
        AppsKnown c (lookups c r (r.wCmdContentLen + 1) 0 0)) := by
  obtain ⟨st', hend, he⟩ := logLoop_eq_some h
  obtain ⟨hmap, hiff⟩ := endLoop_iff hc (.before rfl rfl) hend
  refine ⟨st', hend, he, ?_⟩
  have hnil : OwnRings [] := by simp [OwnRings]
  rw [he] at hiff
  rw [hiff]
  simp [hnil, hmap]

/-- A log record of an app with one byte of text. -/
def logOf (iAppId : Nat) : Bytes :=
  be32 1 ++ be32 iAppId ++ be32 1 ++ be32 1 ++ be16 4 ++ List.replicate 8 0 ++ be16 0 ++ be16 1 ++
    [65]

/-- A server that knows apps 1 and 2, and has mapped the ring of app 1. -/
def twoApps : LogCtx :=
  { ReportAuth.sampleLogCtx with
    getAppInfo := fun i => if i = 1 ∨ i = 2 then some ⟨i, 1⟩ else none
    getAppLogShm := fun i => some ⟨i⟩ }

theorem twoApps_belongs : Belongs twoApps where
  map := by
    intro i shm h
    simp only [twoApps, ReportAuth.sampleLogCtx] at h
    split at h
    · cases h
      exact ‹i = 1›.symm
    · cases h
  app := by
    intro i app h
    simp only [twoApps] at h
    split at h
    · cases h
      rfl
    · cases h
  shm := by
    intro i shm h
    cases h
    rfl

theorem log_dispatch_iff_two_logs :
    let r : Report := ⟨⟨7, []⟩, logOf 1 ++ logOf 1, 62, 0⟩
    let log : LogEffect := .appLog ⟨1⟩ ⟨1, 1, 1, 1, 4, 0, 0, 1⟩ [65] 7
    ∃ st', endLoop twoApps r 63 ⟨0, 0, none, twoApps.mapAppLogShm, []⟩ = some st' ∧
      st'.effects = [log, log] ∧
      (OwnRings [log, log] ∧ MapOk st'.mapAppLogShm ↔ AppsKnown twoApps (lookups twoApps r 63 0 0)) :=
  log_dispatch_iff twoApps twoApps_belongs ⟨⟨7, []⟩, logOf 1 ++ logOf 1, 62, 0⟩ _ none
    (by decide +kernel)

/-- A packet with a log of app 1 and then one of app 2: both are written to the
ring of app 1. -/
theorem log_dispatch_wrong : Belongs twoApps ∧
      writeLogs twoApps ⟨⟨7, []⟩, logOf 1 ++ logOf 2, 62, 0⟩ =
        some ([.appLog ⟨1⟩ ⟨1, 1, 1, 1, 4, 0, 0, 1⟩ [65] 7,
          .appLog ⟨1⟩ ⟨1, 2, 1, 1, 4, 0, 0, 1⟩ [65] 7], none) :=
  ⟨twoApps_belongs, by decide +kernel⟩

end DesPwd.L4.LogDispatch
