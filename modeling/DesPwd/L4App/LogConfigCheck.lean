import DesPwd.L2Machine.TimerWheelRun
import DesPwd.L3Protocol.LogConfigSync

/-!
# slog_mtreport_client: the check of the log configs

After each answer of the server `InitCheckLogConfig` builds the next check packet
and sets a timer that sends it. The packet has twelve bytes for every log config,
and `MakePacket` refuses one for which the buffer of 4096 bytes is too small; the
agent does not look at that, takes the 0 it returned for the key of the timer, and
`AddTimer` finds the key 0 in every free node. No timer is set then, and as only an
answer leads to the next check, the check ends until the agent starts again.

The first check after a start sends every sequence number less one, so that the
server sends all configs.

Of the session data only the size is modelled, the bytes of the structures on the
stack that are not set are arguments.

* `check_armed_iff`: when a timer is set for a packet with all ids and sequence
  numbers that the server accepts.
* `check_stops`: 330 configs.

The source files are in `slog_mtreport_client/`.
-/
namespace DesPwd.L4.LogConfigCheck

open Bytes L1.BasicPacket L1.PacketForm L1.PacketMake
  DesPwd.L1.LogConfig DesPwd.L2.TimerWheel DesPwd.L3.AgentReport DesPwd.L3.LogConfigSync
open List hiding Vector

/-! ## The agent -/

/-- `CMD_MONI_CHECK_LOG_CONFIG` -/
def cmdMoniCheckLogConfig : UInt32 := 206
/-- `RESTART_FLAG_CHECK_LOG_CONFIG` -/
def restartFlagCheckLogConfig : UInt32 := 2
/-- `PKG_BUFF_LENGTH` -/
def pkgBuffLength : Nat := 4096
/-- `sizeof(PKGSESSION)` -/
def pkgSessionLen : Nat := 36

/-- What the check uses of `stConfig` and of the shared memory. -/
structure Agent where
  dwLastHelloOkTime : UInt32
  dwPkgSeq : UInt32
  dwRestartFlag : UInt32
  iEnableEncryptData : Bool
  sRandKey : Bytes
  iMtClientIndex : UInt32
  iMachineId : UInt32
  stLogConfig : Table
  timer : Timer

/-- The arguments, what `rand`, `malloc` and `SetCurTime` answer, and the bytes of
`stSigInfo` and `stTlvInfo` that are not set. -/
structure Call where
  dwTimeOutMs : UInt32
  dwSrvRespTime : UInt32
  rand : Nat
  mallocOk : Bool
  now : Nat
  stSigRest : Vector UInt8 17
  stTlvRest : Vector UInt8 44

/-- The seconds of the last `SetCurTime`. -/
def Agent.dwCurTime (s : Agent) : UInt32 := UInt32.ofNat (s.timer.qwCurTime / 1000000)

/-- mirrors mtreport_protoc.cpp:58-62 -/
def isHelloValid (s : Agent) : Bool := s.dwLastHelloOkTime + 2 * 60 > s.dwCurTime

/-- `m_dwReqSeq` and `dwPkgSeq` afterwards;
mirrors mtreport_basic_pkg.cpp:46-55 -/
def nextSeq (dwPkgSeq : UInt32) : UInt32 × UInt32 :=
  if dwPkgSeq = 0 then (1, 2) else (dwPkgSeq, dwPkgSeq + 1)

/-- mirrors mtreport_basic_pkg.cpp:40-57 -/
def initReqPkgHead (cmd dwSeq : UInt32) : ReqPkgHead :=
  ⟨cmd, dwSeq, 0, 0, 0, 0, 1, 0, Vector.replicate 32 0, 0, Vector.replicate 8 0⟩

/-- The list in the packet; mirrors mtreport_protoc.cpp:2051-2058 -/
def checkList (s : Agent) : List LogConfigReq :=
  s.stLogConfig.cfgs.map fun c =>
    { reqOf c with
      dwSeq := if s.dwRestartFlag &&& restartFlagCheckLogConfig = 0 then c.dwSeq - 1 else c.dwSeq }

/-- A `MonitorCommSig`, encrypted; mirrors sv_struct.cpp:119-162 -/
def commSignature (cipher : InvCipher) (s : Agent) (dwSeq : UInt32) (rest : Vector UInt8 17) :
    TSignature where
  bSigType := UInt8.ofNat sigTypeCommon
  sSigValue := aesCipherData (cipher .aes128 s.sRandKey)
    (put32 dwSeq ++ (put32 cmdMoniCheckLogConfig ++ rest.toList))
  len_le := by
    rw [length_aesCipherData]
    simp [maxSignatureLen]

def emptySignature : TSignature := ⟨0, [], by decide⟩

/-- The TLV with the ids of the agent;
mirrors mtreport_protoc.cpp:2078-2084 -/
def commInfoTlv (s : Agent) (rest : Vector UInt8 44) : WTlv where
  wType := UInt16.ofNat tlvMoniCommInfo
  sValue := put32 s.iMtClientIndex ++ (put32 s.iMachineId ++ rest.toList)
  len_lt := by simp

/-- The parts of the check packet. -/
def checkResp (cipher : InvCipher) (s : Agent) (c : Call) : Resp where
  sig := some
    (if s.iEnableEncryptData then commSignature cipher s (nextSeq s.dwPkgSeq).1 c.stSigRest
    else emptySignature)
  content := contentCheckLogConfig c.dwSrvRespTime (checkList s)
  body := some ⟨[commInfoTlv s c.stTlvRest], by simp⟩

/-- The key, which is 0 when the packet was not made, and the `iPkgLen` bytes of
the buffer. mirrors mtreport_protoc.cpp:2038-2089 -/
def makeCheckLogConfigPkg (cipher : InvCipher) (s : Agent) (c : Call) : Agent × UInt32 × Bytes :=
  let dwSeq := (nextSeq s.dwPkgSeq).1
  let s' :=
    { s with
      dwPkgSeq := (nextSeq s.dwPkgSeq).2
      dwRestartFlag := s.dwRestartFlag ||| restartFlagCheckLogConfig }
  match agentMakePacket (initReqPkgHead cmdMoniCheckLogConfig dwSeq) (checkResp cipher s c)
      pkgBuffLength 0 with
  | some b => (s', dwSeq, b)
  | none => (s', 0, List.replicate pkgBuffLength 0)

/-- `CMD_CHECK_CONFIG_TIME_MS` is `60*1000` without brackets.
mirrors mtreport_protoc.cpp:2107-2109 -/
def expireTimeMs (c : Call) : Nat :=
  let ms := if c.dwTimeOutMs ≠ 0 then c.dwTimeOutMs.toNat else c.rand % 60 * 1000 + 1
  if ms < 5 * 1000 then 5 * 1000 else ms

/-- The call of `AddTimer`. -/
def timerCall (c : Call) (dwKey : UInt32) (pkg : Bytes) : Timer.AddCall where
  uiKey := dwKey.toNat
  uiTimeOut := expireTimeMs c
  onExpire := true
  iSessDataLen := pkgSessionLen
  sData := pkg
  mallocOk := c.mallocOk
  now := c.now

/-- mirrors mtreport_protoc.cpp:2091-2119 -/
def initCheckLogConfig (cipher : InvCipher) (s : Agent) (c : Call) : Agent :=
  if !isHelloValid s then { s with timer := { s.timer with cIsAgentRun := 2 } }
  else
    let (s, dwKey, pkg) := makeCheckLogConfigPkg cipher s c
    { s with timer := (s.timer.addTimer (timerCall c dwKey pkg)).1 }

/-! ## The property -/

/-- A packet that the server accepts, a check with every id and sequence number of
the table. -/
def IsCheckPacket (s : Agent) (b : Bytes) : Prop :=
  ∃ p, checkBasicPacket b = some (.ok p) ∧ p.dwCmd = cmdMoniCheckLogConfig.toNat ∧
    readCheck p.content p.wCmdContentLen = some (.ok (s.stLogConfig.cfgs.map reqOf))

/-- A timer was set for such a packet. -/
def CheckArmed (s s' : Agent) : Prop :=
  ∃ uiKey n b, uiKey ≠ 0 ∧ Timer.Armed s.timer s'.timer uiKey n b ∧ IsCheckPacket s b

/-- As many configs fit a packet. -/
def maxChecked (s : Agent) : Nat := if s.iEnableEncryptData then 327 else 329

/-! ## The packet -/

section Packet

variable (cipher : InvCipher) (s : Agent) (c : Call)

theorem nextSeq_ne_zero (n : UInt32) : (nextSeq n).1.toNat ≠ 0 := by
  unfold nextSeq
  split
  · decide
  · rename_i h
    exact fun h0 => h (UInt32.toNat_inj.mp h0)

theorem length_checkList : (checkList s).length = s.stLogConfig.cfgs.length := length_map _

/-- The list has the sequence numbers of the table, except after a start. -/
theorem checkList_eq_iff : checkList s = s.stLogConfig.cfgs.map reqOf ↔
    s.dwRestartFlag &&& restartFlagCheckLogConfig ≠ 0 ∨ s.stLogConfig.cfgs = [] := by
  unfold checkList
  by_cases hflag : s.dwRestartFlag &&& restartFlagCheckLogConfig = 0
  · simp only [hflag, ne_eq, not_true, false_or]
    constructor
    · intro h
      cases hc : s.stLogConfig.cfgs with
      | nil => rfl
      | cons a l =>
        rw [hc] at h
        have hseq : a.dwSeq - 1 = a.dwSeq := congrArg LogConfigReq.dwSeq (List.cons.inj h).1
        have hnat := congrArg UInt32.toNat hseq
        rw [UInt32.toNat_sub] at hnat
        simp only [UInt32.toNat_one] at hnat
        omega
    · intro h
      rw [h]
      rfl
  · simp only [hflag, ne_eq, not_false_eq_true, true_or, iff_true]
    rfl

theorem need_checkResp : (checkResp cipher s c).need =
    (if s.iEnableEncryptData then 172 else 140) + logConfigReqLen * s.stLogConfig.cfgs.length := by
  have hcontent : (checkResp cipher s c).content.length =
      contentCheckLen + logConfigReqLen * s.stLogConfig.cfgs.length := by
    rw [checkResp, length_contentCheck, length_checkList]
  have hbody : (checkResp cipher s c).wRespBodyLen = 57 := by
    show (TPkgBody.bytes _).length = 57
    simp [TPkgBody.bytes, tlvBytes, commInfoTlv, twTlvLen]
  have hsig : (checkResp cipher s c).wRespSigLen = if s.iEnableEncryptData then 35 else 3 := by
    show (TSignature.bytes (if s.iEnableEncryptData then _ else _)).length = _
    cases s.iEnableEncryptData with
    | true => simp [TSignature.bytes, commSignature, length_aesCipherData]
    | false => rfl
  rw [Resp.need, hcontent, hsig]
  simp only [reqPkgHeadLen, tSignatureLen, tPkgBodyLen, contentCheckLen]
  cases s.iEnableEncryptData <;> simp <;> omega

/-- The packet is made exactly up to a number of configs. -/
theorem need_le_iff : (checkResp cipher s c).need ≤ pkgBuffLength ↔
    s.stLogConfig.cfgs.length ≤ maxChecked s := by
  rw [need_checkResp, maxChecked, pkgBuffLength, logConfigReqLen]
  cases s.iEnableEncryptData <;> simp <;> omega

theorem checkBasicPacket_check (h : s.stLogConfig.cfgs.length ≤ maxChecked s) (seq : UInt32) :
    ∃ p, checkBasicPacket ((checkResp cipher s c).packetBytes
        { initReqPkgHead cmdMoniCheckLogConfig seq with bRetCode := 0 }) = some (.ok p) ∧
      p.dwCmd = cmdMoniCheckLogConfig.toNat ∧
      readCheck p.content p.wCmdContentLen = some (.ok (checkList s)) := by
  have hsize : (checkResp cipher s c).pkgLen ≤ maxUdpReqPacketSize :=
    le_trans (checkResp cipher s c).pkgLen_le_need ((need_le_iff cipher s c).mpr h)
  rw [Resp.packetBytes_eq]
  refine ⟨_, ((checkResp cipher s c).form_sized (le_refl _) hsize _).checkBasicPacket
    ((checkResp cipher s c).form_retCode _), ?_, ?_⟩
  · exact (recovers_form (initReqPkgHead cmdMoniCheckLogConfig seq) _ _ rfl rfl).cmd
  show readCheck ((checkResp cipher s c).content ++ _) (checkResp cipher s c).content.length = _
  have hlen : (checkResp cipher s c).content.length =
      contentCheckLen + logConfigReqLen * (checkList s).length := length_contentCheck _ _
  rw [hlen]
  exact readCheck_bytes c.dwSrvRespTime (checkList s) (by
    rw [length_checkList]
    exact lt_of_le_of_lt s.stLogConfig.len_le (by decide)) _

end Packet

/-! ## The timer -/

section Armed

variable (cipher : InvCipher) {s : Agent} (c : Call)

/-- The packet is made and a timer can be set. -/
def CanCheck (s : Agent) (c : Call) : Prop :=
  s.stLogConfig.cfgs.length ≤ maxChecked s ∧ s.timer.HasRoom (nextSeq s.dwPkgSeq).1.toNat ∧
    c.mallocOk = true

theorem timer_initCheckLogConfig (hhello : isHelloValid s = true) :
    (initCheckLogConfig cipher s c).timer =
      (s.timer.addTimer (timerCall c (makeCheckLogConfigPkg cipher s c).2.1
        (makeCheckLogConfigPkg cipher s c).2.2)).1 := by
  have htimer : (makeCheckLogConfigPkg cipher s c).1.timer = s.timer := by
    unfold makeCheckLogConfigPkg
    dsimp only
    split <;> rfl
  rw [initCheckLogConfig, hhello]
  show ((makeCheckLogConfigPkg cipher s c).1.timer.addTimer (timerCall c
    (makeCheckLogConfigPkg cipher s c).2.1 (makeCheckLogConfigPkg cipher s c).2.2)).1 = _
  rw [htimer]

/-- The packet; with too many configs the key is 0. -/
theorem makeCheckLogConfigPkg_eq : (makeCheckLogConfigPkg cipher s c).2 =
    if s.stLogConfig.cfgs.length ≤ maxChecked s then
      ((nextSeq s.dwPkgSeq).1, (checkResp cipher s c).packetBytes
        { initReqPkgHead cmdMoniCheckLogConfig (nextSeq s.dwPkgSeq).1 with bRetCode := 0 })
    else (0, List.replicate pkgBuffLength 0) := by
  simp only [← need_le_iff cipher s c]
  unfold makeCheckLogConfigPkg agentMakePacket
  dsimp only
  by_cases hneed : (checkResp cipher s c).need ≤ pkgBuffLength
  · rw [if_neg (by omega), if_pos hneed]
  · rw [if_pos (by omega), if_neg hneed]

/-- No timer is set where `CanCheck` fails. -/
theorem active_of_not_canCheck (hhello : isHelloValid s = true) (h : ¬ CanCheck s c) :
    (initCheckLogConfig cipher s c).timer.active = s.timer.active := by
  rw [timer_initCheckLogConfig cipher c hhello, makeCheckLogConfigPkg_eq]
  by_cases hlen : s.stLogConfig.cfgs.length ≤ maxChecked s
  · rw [if_pos hlen]
    by_cases hroom : s.timer.HasRoom (nextSeq s.dwPkgSeq).1.toNat
    · have hmalloc : c.mallocOk = false := by
        cases hm : c.mallocOk with
        | false => rfl
        | true => exact absurd ⟨hlen, hroom, hm⟩ h
      exact addTimer_no_malloc (cons_ne_nil _ _) hmalloc
    · exact addTimer_not_armed fun _ => hroom
  · rw [if_neg hlen]
    exact addTimer_not_armed fun h0 => absurd rfl h0

/-- Where it holds, the packet that was made stands in the timer. -/
theorem armed_of_canCheck (hhello : isHelloValid s = true) (h : CanCheck s c) : ∃ n b p,
      Timer.Armed s.timer (initCheckLogConfig cipher s c).timer (nextSeq s.dwPkgSeq).1.toNat n b ∧
      checkBasicPacket b = some (.ok p) ∧ p.dwCmd = cmdMoniCheckLogConfig.toNat ∧
      readCheck p.content p.wCmdContentLen = some (.ok (checkList s)) := by
  obtain ⟨hlen, hroom, hmalloc⟩ := h
  obtain ⟨p, hp⟩ := checkBasicPacket_check cipher s c hlen (nextSeq s.dwPkgSeq).1
  have hsess : pkgSessionLen ≤ sessDataLen := by decide
  obtain ⟨n, harm⟩ := addTimer_armed
    (a := timerCall c (nextSeq s.dwPkgSeq).1 _) hroom hsess (cons_ne_nil _ _) hmalloc rfl
  refine ⟨n, _, p, ?_, hp⟩
  rw [timer_initCheckLogConfig cipher c hhello, makeCheckLogConfigPkg_eq, if_pos hlen]
  exact harm

end Armed

/-- **The check of the log configs.** With a valid hello, a timer is set for a packet with all
ids and sequence numbers that the server accepts, and is on one list of the wheel, exactly if
it is not the first check after a start or there are no configs, the packet has room for
them, the hash has a free node and none with the key, and `malloc` does not fail. -/
theorem check_armed_iff (cipher : InvCipher) (s : Agent) (c : Call)
    (hhello : isHelloValid s = true) :
    (CheckArmed s (initCheckLogConfig cipher s c) ↔
      (s.dwRestartFlag &&& restartFlagCheckLogConfig ≠ 0 ∨ s.stLogConfig.cfgs = []) ∧
        s.stLogConfig.cfgs.length ≤ maxChecked s ∧
        s.timer.HasRoom (nextSeq s.dwPkgSeq).1.toNat ∧ c.mallocOk = true) ∧
    (WheelInv s.timer → Timely s.timer c.now → s.timer.qwCurTime ≤ c.now →
      KeepsTimers (initCheckLogConfig cipher s c).timer) := by
  constructor
  · constructor
    · rintro ⟨uiKey, n, b, -, harm, p, hp, -, hread⟩
      have hcan : CanCheck s c := by
        by_contra h
        have hact := active_of_not_canCheck cipher c hhello h
        rw [harm.active] at hact
        exact absurd hact (cons_ne_self n _)
      obtain ⟨n', b', p', harm', hp', -, hread'⟩ := armed_of_canCheck cipher c hhello hcan
      -- both describe the one timer that was set
      have hn : n = n' := (List.cons.inj (harm.active.symm.trans harm'.active)).1
      subst hn
      have hb : b = b' := Option.some.inj (harm.data.symm.trans harm'.data)
      subst hb
      have hpp : p = p' := by
        rw [hp] at hp'
        cases hp'
        rfl
      subst hpp
      have hlist : checkList s = s.stLogConfig.cfgs.map reqOf := by
        rw [hread] at hread'
        exact (Except.ok.inj (Option.some.inj hread')).symm
      exact ⟨(checkList_eq_iff s).mp hlist, hcan⟩
    · rintro ⟨hflag, hcan⟩
      obtain ⟨n, b, p, harm, hp, hcmd, hread⟩ := armed_of_canCheck cipher c hhello hcan
      rw [(checkList_eq_iff s).mpr hflag] at hread
      exact ⟨_, n, b, nextSeq_ne_zero _, harm, p, hp, hcmd, hread⟩
  · intro hinv htime hle
    rw [timer_initCheckLogConfig cipher c hhello]
    obtain ⟨t', ht', hinv'⟩ := hinv.step (l := .addTimer (timerCall c
      (makeCheckLogConfigPkg cipher s c).2.1 (makeCheckLogConfigPkg cipher s c).2.2)) ⟨hle, htime⟩
    cases ht'
    exact hinv'.keepsTimers

/-- An agent whose timers are all free, some time after its start. -/
def startedAgent (stLogConfig : Table) : Agent :=
  ⟨0, 1, restartFlagCheckLogConfig, false, [], 1, 1, stLogConfig, initTimer 0 1⟩

def plainCall : Call := ⟨0, 0, 0, true, 0, Vector.replicate 17 0, Vector.replicate 44 0⟩

/-- With one config the timer is set, and the wheel holds it. -/
theorem check_armed_one_config : CheckArmed (startedAgent (idsTable 1 (by decide)))
        (initCheckLogConfig idBlockCipher.cipher (startedAgent (idsTable 1 (by decide)))
          plainCall) ∧
      KeepsTimers (initCheckLogConfig idBlockCipher.cipher
        (startedAgent (idsTable 1 (by decide))) plainCall).timer := by
  have h := check_armed_iff idBlockCipher.cipher (startedAgent (idsTable 1 (by decide))) plainCall
    (by decide)
  have hroom : (initTimer 0 1).HasRoom 1 := ⟨by decide +kernel, by decide +kernel⟩
  have htime : Timely (initTimer 0 1) 0 := ⟨by decide, ⟨by decide, by decide⟩, by decide⟩
  exact ⟨h.1.mpr ⟨.inl (by decide), by decide, hroom, rfl⟩,
    h.2 (wheelInv_init 0 1) htime (by decide)⟩

/-- **The check stops.** With 330 configs the packet does not fit, and though every
node of the timers is free no timer is set. -/
theorem check_stops : isHelloValid (startedAgent (idsTable 330 (by decide))) = true ∧
    (∀ n, (initTimer 0 1).keyNow n = 0) ∧
    (initCheckLogConfig idBlockCipher.cipher (startedAgent (idsTable 330 (by decide)))
      plainCall).timer.active = [] ∧
    ¬ CheckArmed (startedAgent (idsTable 330 (by decide)))
      (initCheckLogConfig idBlockCipher.cipher (startedAgent (idsTable 330 (by decide)))
        plainCall) := by
  have hhello : isHelloValid (startedAgent (idsTable 330 (by decide))) = true := rfl
  have hlarge : ¬ CanCheck (startedAgent (idsTable 330 (by decide))) plainCall := by
    rintro ⟨hle, -⟩
    have hlen : (idsTable 330 (by decide)).cfgs.length = 330 := length_idsTable _
    have hle' : (idsTable 330 (by decide)).cfgs.length ≤ 329 := hle
    omega
  have hact := active_of_not_canCheck idBlockCipher.cipher plainCall hhello hlarge
  refine ⟨hhello, fun n => ?_, hact, ?_⟩
  · unfold Timer.keyNow Timer.prune
    split <;> rfl
  · rintro ⟨uiKey, n, b, -, harm, -⟩
    exact absurd (harm.active.symm.trans hact) (cons_ne_nil n _)

end DesPwd.L4.LogConfigCheck
