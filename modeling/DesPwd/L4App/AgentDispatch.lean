import DesPwd.L1Encoding.PacketForm
import DesPwd.L2Machine.TimerWheelInv
import DesPwd.L3Protocol.AgentReport

/-!
# Datagrams that fail the agent's check

`OnMtreportPkg` goes on with a packet that `CheckBasicPacket` refused, unless the
check had not even set `m_pstReqHead`: the commands of the server and the
sequence number of a response are read from what the check had set before it
failed (slog_mtreport_client/mtreport_client.cpp, mtreport_basic_pkg.cpp,
mtreport_protoc.cpp).

`agentMembers` is the check with the members of `CBasicPacket` that it leaves
behind. The handlers of the server's commands are modelled up to the point where
their checks are passed (`Dealt.executed`), the handling of a response up to the
timer that `GetTimer` took off the wheel. AES is any cipher; the clock of the
timers is the reading at the time of the search. Error answers to the server are
not part of the state; a read through a null pointer and a write outside a buffer
count as effects (`Dealt.fault`).

* `getTimer_eq_self_iff`: a search that finds and clears nothing.
* `invalid_packet_iff`: the datagrams that leave the agent alone.
* `invalid_packet_acts`: a plugin removed and a timer taken by refused packets.
-/
namespace DesPwd.L4.AgentDispatch

open Bytes Run L1.BasicPacket L1.PacketForm L2.TimerWheel L3.AgentReport Option Timer
open List hiding Vector

/-! ## The check and what it leaves behind -/

/-- The error of the check. -/
def retOf : Except Err (Packet × Nat) → Option Err
  | .error e => some e
  | .ok _ => none

/-- The check with the members that it leaves behind, with `unsigned len = iPkgLen`; `none` in
the answer is `NO_ERROR`. mirrors mtreport_basic_pkg.cpp:143-221 -/
def agentMembers (buf : Bytes) : Option (Members × Option Err) :=
  (checkSteps 65535 (buf.take (buf.length % 4294967296))).map fun r => (r.1, retOf r.2)

variable {buf : Bytes} {err : Err} {m : Members}

theorem agentMembers_of_error (h : agentCheckBasicPacket buf = some (.error err)) :
    ∃ m, agentMembers buf = some (m, some err) := by
  obtain ⟨_, hparts, h⟩ := bind_eq_some_iff.mp h
  obtain ⟨⟨m, parts⟩, hs, rfl⟩ := map_eq_some_iff.mp hparts
  rw [agentMembers, hs]
  cases parts with
  | error e =>
    cases h
    exact ⟨m, rfl⟩
  | ok pr =>
    simp only at h
    split at h
    · cases h
    · obtain ⟨_, -, h⟩ := bind_eq_some_iff.mp h
      cases h

theorem error_of_agentMembers (h : agentMembers buf = some (m, some err)) :
    agentCheckBasicPacket buf = some (.error err) := by
  obtain ⟨⟨m', parts⟩, hs, hr⟩ := map_eq_some_iff.mp h
  cases parts with
  | ok pr => cases hr
  | error e =>
    cases hr
    rw [agentCheckBasicPacket, checkParts, hs]
    rfl

/-! ## The agent -/

/-- What the handlers use beside the packet. -/
structure Env where
  iEnableEncryptData : Bool
  /-- `inv_cipher` with `sRandKey` -/
  inv : Bytes → Fin 16 → UInt8
  /-- `sCmdContentBuf` of `DealPreInstallNotify` before the call -/
  installBuf : Vector UInt8 3072
  /-- that of the other handlers -/
  pluginBuf : Vector UInt8 4352
  /-- the byte in front of it -/
  before : UInt8
  /-- `REQERR_LOG` writes its text -/
  reqErrLog : Bool

structure Agent where
  timer : Timer
  /-- the session of the server's packet -/
  qwServerPacketSessId : Nat
  /-- `iPluginId` of each entry of `stPluginInfo` -/
  stPluginInfo : List Int

/-- `pct` and `iBufLen` of a handler. -/
structure Content where
  pct : Option Bytes
  iBufLen : Int

/-- The first lines of every handler; `none` writes past the buffer.
mirrors mtreport_protoc.cpp:1491-1504, 1629-1643, 1790-1803 -/
def content (e : Env) (sCmdContentBuf : Bytes) (m : Members) : Option Content :=
  if e.iEnableEncryptData then
    (aesDecipherData e.inv ((m.m_pstCmdContent.getD []).take m.m_wCmdContentLen) sCmdContentBuf
      e.before).map fun (buf, iDecSigLen) => ⟨some buf, toS32 (iDecSigLen % 4294967296)⟩
  else some ⟨m.m_pstCmdContent, m.m_wCmdContentLen⟩

/-! ## The commands of the server -/

/-- How far a command comes. -/
inductive Dealt where
  | error
  | executed
  | fault

/-- `sizeof(CmdS2cPreInstallContentReq)` -/
def preInstallLen : Nat := 93
/-- `sizeof(CmdS2cMachOprPluginReq)` -/
def machOprLen : Nat := 60
/-- `sizeof(CmdS2cModMachPluginCfgReq)` -/
def modCfgLen : Nat := 17

/-- `(int)(ntohl(x)+size)` -/
def intSum (v size : Nat) : Int := toS32 ((v + size) % 4294967296)

/-- A field behind `pct`. -/
def field (ct : Content) (i : Nat) : Option Nat := ct.pct.bind (rd32 · i)

/-- The text of the error reads `pct->iUrlLen`, also of a packet without a content.
mirrors mtreport_protoc.cpp:1787-1810 -/
def dealPreInstallNotify (e : Env) (m : Members) : Dealt :=
  (content e e.installBuf.toList m).elim .fault fun ct =>
    if ct.iBufLen < preInstallLen then
      if ct.pct.isNone && e.reqErrLog then .fault else .error
    else match field ct 89 with
      | none => .fault
      | some iUrlLen => if ct.iBufLen ≠ intSum iUrlLen preInstallLen then .error else .executed

/-- mirrors mtreport_protoc.cpp:1626-1648 -/
def dealMachineOprPlugin (e : Env) (m : Members) : Dealt :=
  (content e e.pluginBuf.toList m).elim .fault fun ct =>
    if ct.iBufLen ≠ machOprLen then .error else .executed

/-- `pct->strCfgs[pct->iConfigLen-1] = '\0'`: `pct->iPluginId` behind it, which may have lost a
byte of the host's order; `none` is outside the buffer. mirrors mtreport_protoc.cpp:1521 -/
def endCfgs (ct : Content) (iPluginId iConfigLen : Nat) : Option Nat :=
  let i : Int := modCfgLen + toS32 iConfigLen - 1
  if i < 0 ∨ (ct.pct.getD []).length ≤ i then none
  else if 4 ≤ i ∧ i < 8 then
    let p := 256 ^ (i - 4).toNat
    some (iPluginId - iPluginId / p % 256 * p)
  else some iPluginId

example : endCfgs ⟨some (replicate 32 0), 5⟩ 257 4294967284 = some 256 := by decide

/-- mirrors mtreport_protoc.cpp:1491-1533 -/
def dealModMachinePluginCfg (e : Env) (a : Agent) (m : Members) : Dealt :=
  (content e e.pluginBuf.toList m).elim .fault fun ct =>
    if m.m_wCmdContentLen ≤ modCfgLen then .error
    else match field ct 4, field ct 13 with
      | some iPluginId, some iConfigLen =>
        if intSum iConfigLen modCfgLen ≠ ct.iBufLen then .error
        else match endCfgs ct iPluginId iConfigLen with
          | none => .fault
          | some id => if toS32 id ∈ a.stPluginInfo then .executed else .error
      | _, _ => .fault

/-- `stConfig.qwServerPacketSessId = ntohll(...)` -/
def setSession (a : Agent) (h : HeadFields) : Agent :=
  if h.qwSessionId ≠ 0 then { a with qwServerPacketSessId := h.qwSessionId } else a

/-! ## The handler -/

/-- The handler returned, goes on with a command of the server, or goes on with
the response to the session of a timer; the state it has then. -/
inductive Outcome where
  | done (a : Agent)
  | command (dwCmd : Nat) (a : Agent)
  | response (pNode : Option Nat) (a : Agent)
  | fault

def Outcome.ofDealt (h : HeadFields) (a : Agent) : Dealt → Outcome
  | .error => .done a
  | .executed => .command h.dwCmd a
  | .fault => .fault

/-- `CMD_MONI_S2C_PRE_INSTALL_NOTIFY` -/
def preInstallNotify : Nat := 703
/-- `CMD_MONI_S2C_MACH_ORP_PLUGIN_REMOVE` -/
def oprPluginRemove : Nat := 704
/-- `CMD_MONI_S2C_MACH_ORP_PLUGIN_ENABLE` -/
def oprPluginEnable : Nat := 705
/-- `CMD_MONI_S2C_MACH_ORP_PLUGIN_DISABLE` -/
def oprPluginDisable : Nat := 706
/-- `CMD_MONI_S2C_MACH_ORP_PLUGIN_MOD_CFG` -/
def oprPluginModCfg : Nat := 707

/-- mirrors mtreport_client.cpp:152-198 -/
def dispatch (e : Env) (a : Agent) (m : Members) (h : HeadFields) : Outcome :=
  if h.dwCmd = preInstallNotify then .ofDealt h a (dealPreInstallNotify e m)
  else if h.dwCmd = oprPluginModCfg then
    -- the session is set before the checks
    .ofDealt h (setSession a h) (dealModMachinePluginCfg e a m)
  else if h.dwCmd = oprPluginRemove ∨ h.dwCmd = oprPluginEnable ∨ h.dwCmd = oprPluginDisable then
    .ofDealt h a (dealMachineOprPlugin e m)
  else match a.timer.getTimer h.dwSeq with
    | none => .fault
    | some (t, r) =>
      if r.ret < 0 then .done { a with timer := t } else .response r.pNode { a with timer := t }

/-- mirrors mtreport_client.cpp:140-198 -/
def onMtreportPkg (e : Env) (a : Agent) (buf : Bytes) : Option Outcome :=
  (agentMembers buf).map fun r =>
    match r.1.m_pstReqHead with
    | none => .done a
    | some h => dispatch e a r.1 h

/-- Nothing was changed and no command executed. -/
def NoEffect (a : Agent) : Outcome → Prop
  | .done a' => a' = a
  | .response _ a' => a' = a
  | .command _ _ => False
  | .fault => False

/-! ## Searching the timers -/

section Search

variable {key n : Nat} {s : Timer}

theorem prune_eq_self_iff (s : Timer) (nd : TimerNode) : s.prune nd = nd ↔
      nd.uiKey = 0 ∨ nd.dwProcessId = s.dwProcessId ∧ s.qwCurTime ≤ nd.qwExpireTime + staleUs := by
  unfold prune
  by_cases h : nd.dwProcessId ≠ s.dwProcessId ∨ nd.qwExpireTime + staleUs < s.qwCurTime
  · rw [if_pos h]
    constructor
    · intro he
      exact .inl (congrArg TimerNode.uiKey he).symm
    · rintro (h0 | ⟨hp, hle⟩)
      · rw [← h0]
      · omega
  · rw [if_neg h]
    rw [not_or, Decidable.not_not] at h
    exact iff_of_true rfl (.inr ⟨h.1, not_lt.mp h.2⟩)

theorem looks_eq_self_iff (s : Timer) (ns : List Nat) :
    s.looks ns = s ↔ ∀ n ∈ ns, s.prune (s.node n) = s.node n := by
  constructor
  · intro h n hn
    have hnode := congrArg (fun t => t.node n) h
    simpa [looks, hn] using hnode
  · intro h
    unfold looks
    congr 1
    funext n
    split
    case isTrue hn => exact h n hn
    case isFalse => rfl

/-- The node stays as it is when the search looks at it, and is not the one that
is looked for. -/
def PassedBy (s : Timer) (key n : Nat) : Prop :=
  (s.node n).uiKey ≠ key ∧ ((s.node n).uiKey = 0 ∨ (s.node n).dwProcessId = s.dwProcessId ∧
      s.qwCurTime ≤ (s.node n).qwExpireTime + staleUs)

theorem passedBy_iff : PassedBy s key n ↔ s.prune (s.node n) = s.node n ∧ s.keyNow n ≠ key := by
  rw [PassedBy, ← prune_eq_self_iff, and_comm]
  refine and_congr_right fun hprune => ?_
  rw [keyNow, hprune]

/-- `GetTimer` leaves the timers alone exactly when its search passes by every
node it looks at. -/
theorem getTimer_eq_self_iff (s : Timer) (key : Nat) :
    (∃ r, s.getTimer key = some (s, r)) ↔ ∀ n ∈ slots key, PassedBy s key n := by
  simp only [passedBy_iff]
  rw [getTimer, hashTableSearch_eq]
  cases hfind : (slots key).find? fun n => key = s.keyNow n with
  | none =>
    have hno : ∀ n ∈ slots key, s.keyNow n ≠ key := fun n hn he =>
      find?_eq_none.mp hfind n hn (decide_eq_true he.symm)
    rw [seen_of_none hfind]
    constructor
    · rintro ⟨r, hr⟩ n hn
      have hself := (Prod.mk.inj (some.inj hr)).1
      exact ⟨(looks_eq_self_iff s _).mp hself n hn, hno n hn⟩
    · intro h
      have hself := (looks_eq_self_iff s _).mpr fun n hn => (h n hn).1
      exact ⟨_, congrArg (fun t => some (t, _)) hself⟩
  | some n =>
    refine iff_of_false ?_ fun h => ?_
    · rintro ⟨r, hr⟩
      obtain ⟨t, ht, hr⟩ := map_eq_some_iff.mp hr
      -- the number of timers went down
      have hdel : t.uiCount = s.uiCount := by
        unfold listDel at ht
        simp only at ht
        split at ht
        · cases ht
        · cases ht
          rfl
      have hdec : dec32 t.uiCount = s.uiCount := congrArg (fun r => r.1.uiCount) hr
      rw [hdel] at hdec
      exact absurd hdec (by unfold dec32; split <;> omega)
    · have hkey := find?_some hfind
      exact (h n (mem_of_find?_eq_some hfind)).2 (of_decide_eq_true hkey).symm

end Search

/-! ## The commands -/

/-- An install command that its handler refuses. -/
def PreInstallRefused (e : Env) (ct : Content) : Prop :=
  if ct.iBufLen < preInstallLen then ct.pct = none → e.reqErrLog = false
  else ∃ iUrlLen, field ct 89 = some iUrlLen ∧ ct.iBufLen ≠ intSum iUrlLen preInstallLen

/-- A change of a configuration that its handler refuses. -/
def ModCfgRefused (a : Agent) (m : Members) (ct : Content) : Prop :=
  m.m_wCmdContentLen ≤ modCfgLen ∨ ∃ iPluginId iConfigLen,
    field ct 4 = some iPluginId ∧ field ct 13 = some iConfigLen ∧
      (intSum iConfigLen modCfgLen = ct.iBufLen →
        ∃ id, endCfgs ct iPluginId iConfigLen = some id ∧ toS32 id ∉ a.stPluginInfo)

/-- The packet has a command that its handler refuses without a trace, or the
sequence number of no timer. -/
def LeavesAlone (e : Env) (a : Agent) (m : Members) (h : HeadFields) : Prop :=
  if h.dwCmd = preInstallNotify then
    ∃ ct, content e e.installBuf.toList m = some ct ∧ PreInstallRefused e ct
  else if h.dwCmd = oprPluginModCfg then
    (∃ ct, content e e.pluginBuf.toList m = some ct ∧ ModCfgRefused a m ct) ∧
      (h.qwSessionId = 0 ∨ h.qwSessionId = a.qwServerPacketSessId)
  else if h.dwCmd = oprPluginRemove ∨ h.dwCmd = oprPluginEnable ∨ h.dwCmd = oprPluginDisable then
    ∃ ct, content e e.pluginBuf.toList m = some ct ∧ ct.iBufLen ≠ machOprLen
  else ∀ n ∈ slots h.dwSeq, PassedBy a.timer h.dwSeq n

theorem setSession_eq_self_iff (a : Agent) (h : HeadFields) :
    setSession a h = a ↔ h.qwSessionId = 0 ∨ h.qwSessionId = a.qwServerPacketSessId := by
  unfold setSession
  by_cases h0 : h.qwSessionId = 0
  · rw [if_neg (not_not.mpr h0)]
    exact iff_of_true rfl (.inl h0)
  rw [if_pos h0]
  constructor
  · exact fun he => .inr (congrArg Agent.qwServerPacketSessId he)
  · rintro (h1 | h1)
    · omega
    · rw [h1]

theorem noEffect_ofDealt_iff (a a' : Agent) (h : HeadFields) (d : Dealt) :
    NoEffect a (.ofDealt h a' d) ↔ d = .error ∧ a' = a := by
  cases d <;> simp [Outcome.ofDealt, NoEffect]

theorem dealPreInstallNotify_iff (e : Env) (m : Members) : dealPreInstallNotify e m = .error ↔
    ∃ ct, content e e.installBuf.toList m = some ct ∧ PreInstallRefused e ct := by
  unfold dealPreInstallNotify PreInstallRefused
  cases content e e.installBuf.toList m with
  | none => simp
  | some ct =>
    simp only [Option.elim_some, some.injEq, exists_eq_left']
    by_cases hshort : ct.iBufLen < preInstallLen
    · rw [if_pos hshort, if_pos hshort]
      cases ct.pct <;> cases e.reqErrLog <;> simp
    · rw [if_neg hshort, if_neg hshort]
      cases field ct 89 <;> simp

theorem dealMachineOprPlugin_iff (e : Env) (m : Members) : dealMachineOprPlugin e m = .error ↔
    ∃ ct, content e e.pluginBuf.toList m = some ct ∧ ct.iBufLen ≠ machOprLen := by
  unfold dealMachineOprPlugin
  cases content e e.pluginBuf.toList m <;> simp

theorem dealModMachinePluginCfg_iff (e : Env) (a : Agent) (m : Members) :
    dealModMachinePluginCfg e a m = .error ↔
      ∃ ct, content e e.pluginBuf.toList m = some ct ∧ ModCfgRefused a m ct := by
  unfold dealModMachinePluginCfg ModCfgRefused
  cases content e e.pluginBuf.toList m with
  | none => simp
  | some ct =>
    by_cases hshort : m.m_wCmdContentLen ≤ modCfgLen
    · simp [hshort]
    cases hid : field ct 4 with
    | none => simp [hshort, hid]
    | some iPluginId =>
      cases hlen : field ct 13 with
      | none => simp [hshort, hid, hlen]
      | some iConfigLen =>
        by_cases hcfg : intSum iConfigLen modCfgLen = ct.iBufLen
        · cases hend : endCfgs ct iPluginId iConfigLen <;> simp [hshort, hid, hlen, hcfg, hend]
        · simp [hshort, hid, hlen, hcfg]

theorem dispatch_iff (e : Env) (a : Agent) (m : Members) (h : HeadFields) :
    NoEffect a (dispatch e a m h) ↔ LeavesAlone e a m h := by
  unfold dispatch LeavesAlone
  split
  · rw [noEffect_ofDealt_iff, dealPreInstallNotify_iff, and_iff_left rfl]
  split
  · rw [noEffect_ofDealt_iff, dealModMachinePluginCfg_iff, setSession_eq_self_iff]
  split
  · rw [noEffect_ofDealt_iff, dealMachineOprPlugin_iff, and_iff_left rfl]
  · rw [← getTimer_eq_self_iff]
    cases ht : a.timer.getTimer h.dwSeq with
    | none => exact iff_of_false id (by simp)
    | some tr =>
      obtain ⟨t, r⟩ := tr
      have hsame : { a with timer := t } = a ↔ ∃ r', some (t, r) = some (a.timer, r') := by
        constructor
        · exact fun he => ⟨r, congrArg (fun b => some (b.timer, r)) he⟩
        · rintro ⟨r', hr⟩
          rw [(Prod.mk.inj (some.inj hr)).1]
      simp only
      split
      · exact hsame
      · exact hsame

/-- A datagram that the check refuses has no effect exactly when the check did not
come to the head of the packet, or the head has a command that its handler refuses
without a trace, or the sequence number of no timer. -/
theorem invalid_packet_iff (e : Env) (a : Agent) (buf : Bytes) (err : Err)
    (h : agentCheckBasicPacket buf = some (.error err)) :
    ∃ m o, agentMembers buf = some (m, some err) ∧ onMtreportPkg e a buf = some o ∧
      (NoEffect a o ↔ ∀ hd, m.m_pstReqHead = some hd → LeavesAlone e a m hd) := by
  obtain ⟨m, hm⟩ := agentMembers_of_error h
  refine ⟨m, _, hm, congrArg (Option.map _) hm, ?_⟩
  cases hhd : m.m_pstReqHead with
  | none => simp only [hhd]; exact iff_of_true rfl nofun
  | some hd =>
    simp [hhd, dispatch_iff e a]

/-! ## Refused packets that act -/

/-- A packet with a wrong length of its signature or of its body is told apart by
`sig` and `body`. -/
def datagram (dwCmd dwSeq : UInt32) (qwSessionId : UInt64) (sig content body : Bytes) : Bytes :=
  let wToPkgBody := 1 + reqPkgHeadLen + sig.length + content.length
  [91] ++ put32 dwCmd ++ put32 dwSeq ++
    put16 (UInt16.ofNat (wToPkgBody + body.length + 1)) ++ put16 (UInt16.ofNat wToPkgBody) ++
    List.replicate 40 0 ++ put64 qwSessionId ++ List.replicate 8 0 ++ sig ++ content ++ body ++ [93]

/-- No encryption; `REQERR_LOG` is on. -/
def plainEnv : Env where
  iEnableEncryptData := false
  inv b i := b.getD i 0
  installBuf := .replicate _ 0
  pluginBuf := .replicate _ 0
  before := 0
  reqErrLog := true

/-- A signature that would be longer than the packet. -/
def badSig : Bytes := [1, 255, 255]

theorem datagram_badSig : agentMembers (datagram 203 7 0 badSig [] [0]) =
    some (⟨some ⟨203, 7, 0⟩, none, 0⟩, some .invalidPacket) := by decide +kernel

theorem invalid_packet_iff_no_timer :
    ∃ o, onMtreportPkg plainEnv ⟨initTimer 0 1, 0, []⟩ (datagram 203 7 0 badSig [] [0]) = some o ∧
      NoEffect ⟨initTimer 0 1, 0, []⟩ o := by
  obtain ⟨m, o, hm, ho, hiff⟩ := invalid_packet_iff plainEnv ⟨initTimer 0 1, 0, []⟩
    (datagram 203 7 0 badSig [] [0]) .invalidPacket (error_of_agentMembers datagram_badSig)
  obtain ⟨rfl, -⟩ := Prod.mk.inj (some.inj (hm.symm.trans datagram_badSig))
  refine ⟨o, ho, hiff.mpr fun hd hhd => ?_⟩
  obtain rfl := some.inj hhd
  -- no node has a key
  exact fun n _ => ⟨by show (0 : Nat) ≠ 7; decide, .inl rfl⟩

/-- The timer that was taken, and the number of timers then. -/
def Outcome.taken : Outcome → Option (Option Nat × Nat)
  | .response pNode a => some (pNode, a.timer.uiCount)
  | _ => none

/-- A body whose TLV is missing: the plugin is removed all the same. A signature
that does not fit: the timer 7 is taken off the wheel; the session of the server's
packet is set; the agent reads through a null pointer. -/
theorem invalid_packet_acts :
    (∀ a, agentCheckBasicPacket (datagram 704 1 0 [1, 0, 0] (List.replicate 60 0) [1]) =
        some (.error .checkTlv) ∧
      onMtreportPkg plainEnv a (datagram 704 1 0 [1, 0, 0] (List.replicate 60 0) [1]) =
        some (.command 704 a)) ∧
    (agentCheckBasicPacket (datagram 203 7 0 badSig [] [0]) = some (.error .invalidPacket) ∧
      ((run step [.addTimer ⟨7, 1000, false, 0, [], true, 0⟩] (initTimer 0 1)).bind fun t =>
        (onMtreportPkg plainEnv ⟨t, 0, []⟩ (datagram 203 7 0 badSig [] [0])).map fun o =>
          (t.uiCount, o.taken)) = some (1, some (some 7, 0))) ∧
    (∀ a, onMtreportPkg plainEnv a (datagram 707 1 9 badSig [] [0]) =
        some (.done { a with qwServerPacketSessId := 9 })) ∧
    ∀ a, onMtreportPkg plainEnv a (datagram 703 1 0 badSig [] [0]) = some .fault := by
  have hremove : agentMembers (datagram 704 1 0 [1, 0, 0] (List.replicate 60 0) [1]) =
      some (⟨some ⟨704, 1, 0⟩, some (List.replicate 60 0 ++ [1, 93]), 60⟩, some .checkTlv) := by
    decide +kernel
  have hcfg : agentMembers (datagram 707 1 9 badSig [] [0]) =
      some (⟨some ⟨707, 1, 9⟩, none, 0⟩, some .invalidPacket) := by decide +kernel
  have hinstall : agentMembers (datagram 703 1 0 badSig [] [0]) =
      some (⟨some ⟨703, 1, 0⟩, none, 0⟩, some .invalidPacket) := by decide +kernel
  refine ⟨fun a => ⟨error_of_agentMembers hremove, ?_⟩,
    ⟨error_of_agentMembers datagram_badSig, by decide +kernel⟩, fun a => ?_, fun a => ?_⟩
  · rw [onMtreportPkg, hremove]
    rfl
  · rw [onMtreportPkg, hcfg]
    rfl
  · rw [onMtreportPkg, hinstall]
    rfl

end DesPwd.L4.AgentDispatch
