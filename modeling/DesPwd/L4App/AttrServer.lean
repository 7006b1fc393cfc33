import DesPwd.L3Protocol.AgentReport

/-!
# slog_monitor_server: an agent's attribute report

`onRawData` is what slog_monitor_server's socket does with a datagram. The
content of a report is a sequence of `AttrNodeClient` (`CMD_MONI_SEND_ATTR`) or
of `StrAttrNodeClient` (`CMD_MONI_SEND_STR_ATTR`); the values read are added by
`dealReportAttr`. The attribute tables answer through `AttrCtx`.

The length of a string node is a signed number that moves the read position,
also backwards, and each node is turned to host order where it lies: the loop
carries the buffer and may not end, so `rounds` bounds it.

* `step_authentic`: a step keeps `AllAuthentic` when the datagram has a
  `MT_SIGNATURE_TYPE_COMMON` signature.

The source files are in `slog_monitor_server/`.
-/
namespace DesPwd.L4.AttrServer

open Bytes L1.BasicPacket L3.AgentReport

/-- `CMD_MONI_SEND_ATTR` -/
def cmdMoniSendAttr : Nat := 203
/-- `CMD_MONI_SEND_STR_ATTR` -/
def cmdMoniSendStrAttr : Nat := 214
/-- `CMD_CGI_SEND_ATTR` -/
def cmdCgiSendAttr : Nat := 215
/-- `CMD_CGI_SEND_STR_ATTR` -/
def cmdCgiSendStrAttr : Nat := 216
/-- `MAX_ATTR_PKG_LENGTH` -/
def maxAttrPkgLength : Nat := 1200
/-- `sizeof(AttrNodeClient)` -/
def attrNodeLen : Nat := 8
/-- `sizeof(StrAttrNodeClient)` -/
def strAttrNodeLen : Nat := 12

/-- mirrors the `AttrInfo` message that the handler fills. -/
structure AttrInfo where
  attrId : Nat
  attrValue : Nat
  str : Option Bytes
  deriving DecidableEq

/-- The kinds of `iDataType` that `DealReportAttr` tells apart. -/
inductive DataType where
  | str
  | num
  deriving DecidableEq

inductive AttrEffect where
  /-- `AddStrAttrReportToShm` -/
  | addStr (attr : AttrInfo) (iHostId : Int)
  /-- `AddReportToWarnAttrShm` -/
  | addNum (attrId attrValue : Nat) (iHostId : Int)
  deriving DecidableEq

/-- The answers to the server while it handles one datagram. -/
structure AttrCtx extends Ctx (maxAttrPkgLength + 256) where
  getAttrInfo : Nat → Option DataType
  /-- the `i`-th value found room in the shared memory -/
  addOk : Nat → Bool

/-- Numbers are read again in host order: four bytes in place, turned around. -/
def swap32 (b : Bytes) (i : Nat) : Bytes :=
  b.take i ++ (slice b i 4).reverse ++ b.drop (i + 4)

/-- mirrors udp_sock.cpp:2222-2234; a node is not read twice -/
def readAttrs (r : Report) : Nat → Nat → List AttrInfo → Option (List AttrInfo)
  | 0, _, _ => none
  | n + 1, iRead, attrs => do
    if iRead + attrNodeLen ≤ r.wCmdContentLen then
      let iAttrID ← rd32 r.content iRead
      let iCurValue ← rd32 r.content (iRead + 4)
      readAttrs r n (iRead + attrNodeLen) (attrs ++ [⟨iAttrID, iCurValue, none⟩])
    else pure attrs

/-- The strings of a report are C strings; mirrors
udp_sock.cpp:2239-2262 -/
def readStrAttrs (len : Nat) : Nat → Bytes → Nat → List AttrInfo →
    Option (Except Err (List AttrInfo))
  | 0, _, _, _ => none
  | n + 1, b, iRead, attrs => do
    if iRead + strAttrNodeLen ≤ len then
      let iStrAttrId ← rd32 b iRead
      let iStrVal ← rd32 b (iRead + 4)
      let iStrLen ← rd32 b (iRead + 8)
      let b := swap32 (swap32 (swap32 b iRead) (iRead + 4)) (iRead + 8)
      -- a size_t: what is negative here is too long there
      let iNext : Int := iRead + strAttrNodeLen + toS32 iStrLen
      if iNext < 0 ∨ (len : Int) < iNext then pure (.error .invalidPacket)
      else
        let rest := b.drop (iRead + strAttrNodeLen)
        let szStrInfo ← cStr (rest.length + 1) rest
        readStrAttrs len n b iNext.toNat (attrs ++ [⟨iStrAttrId, iStrVal, some szStrInfo⟩])
    else pure (.ok attrs)

/-- mirrors udp_sock.cpp:1846-1904 -/
def dealReportAttr (c : AttrCtx) (iHostId : Int) : Nat → List AttrInfo → List AttrEffect
  | _, [] => []
  | i, a :: attrs =>
    let rest := dealReportAttr c iHostId (i + 1) attrs
    if a.attrValue = 0 then rest
    else match c.getAttrInfo a.attrId with
    | none => rest
    | some t =>
      if !c.addOk i then rest
      else match t with
      | .str => .addStr a iHostId :: rest
      | .num => .addNum a.attrId a.attrValue iHostId :: rest

/-- mirrors udp_sock.cpp:2212-2270 -/
def addAttrs (c : AttrCtx) (rounds dwCmd : Nat) (r : Report) :
    Option (List AttrEffect × Option Err) := do
  if dwCmd = cmdMoniSendAttr then
    let attrs ← readAttrs r (r.wCmdContentLen + 1) 0 []
    pure (dealReportAttr c r.machine.id 0 attrs, none)
  else
    match ← readStrAttrs r.wCmdContentLen rounds r.content 0 [] with
    | .error e => pure ([], some e)
    | .ok attrs => pure (dealReportAttr c r.machine.id 0 attrs, none)

/-- The reports of the web interface are for another handler, which does not
touch `m_sDecryptBuf`; mirrors udp_sock.cpp:2162-2271 -/
def onRawDataClientAttr (aes : InvCipher) (rounds : Nat) (c : AttrCtx) (s : Sock AttrEffect)
    (p : Packet) : Option (Sock AttrEffect) :=
  if p.dwCmd = cmdCgiSendStrAttr ∨ p.dwCmd = cmdCgiSendAttr then some s
  else if p.dwCmd ≠ cmdMoniSendAttr ∧ p.dwCmd ≠ cmdMoniSendStrAttr then
    some (s.refuse c.szAgentAccessKey p .invalidPacket)
  else handleReport aes c.toCtx s p (addAttrs c rounds p.dwCmd)

/-- A datagram, and the answers while it is handled. -/
structure Datagram where
  ctx : AttrCtx
  buf : Bytes

/-- mirrors udp_sock.cpp:2018-2050; what the protobuf
command does is left out, it does not touch `m_sDecryptBuf` -/
def onRawData (aes : InvCipher) (rounds : Nat) (s : Sock AttrEffect) (d : Datagram) :
    Option (Sock AttrEffect) := do
  match ← checkBasicPacket d.buf with
  | .ok p => onRawDataClientAttr aes rounds d.ctx s p
  | _ => pure s

/-- An attribute report in the datagram has a signature of the type the server
checks. -/
def CommonSigned (_ : Sock AttrEffect) (d : Datagram) : Prop :=
  ∀ p, checkBasicPacket d.buf = some (.ok p) →
    p.dwCmd = cmdMoniSendAttr ∨ p.dwCmd = cmdMoniSendStrAttr → p.bSigType = sigTypeCommon

theorem step_authentic {aes : InvCipher} {rounds : Nat} {s s' : Sock AttrEffect} {d : Datagram}
    (hs : s.AllAuthentic aes) (hd : CommonSigned s d) (h : onRawData aes rounds s d = some s') :
    s'.AllAuthentic aes := by
  simp only [onRawData, Option.bind_eq_bind, Option.bind_eq_some_iff] at h
  obtain ⟨ch, hp, h⟩ := h
  rcases ch with _ | p | e
  · cases h
    exact hs
  · exact command_authentic hs (fun hm => hd p hp (by omega)) h
  · cases h
    exact hs

end DesPwd.L4.AttrServer
