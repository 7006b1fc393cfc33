import DesPwd.Core.Bytes

/-!
# Request packets

A datagram to one of the servers is `SPKG`, a `ReqPkgHead`, a `TSignature` with
its value, the command content, a `TPkgBody` of TLVs, `EPKG`; all structures
are packed and all numbers in network order. `checkBasicPacket` is the check
that every server makes first (lib/mtagent_api_open/basic_packet.cpp), called
without a buffer of its own. `none` is a read outside the datagram.
-/
namespace DesPwd.L1.BasicPacket

open Bytes

/-! ## Sizes and constants of sv_struct.h -/

/-- `sizeof(ReqPkgHead)` -/
def reqPkgHeadLen : Nat := 68
/-- `sizeof(TSignature)` -/
def tSignatureLen : Nat := 3
/-- `sizeof(TPkgBody)` -/
def tPkgBodyLen : Nat := 1
/-- `sizeof(TWTlv)` -/
def twTlvLen : Nat := 4
/-- `MAX_UDP_REQ_PACKET_SIZE` -/
def maxUdpReqPacketSize : Nat := 4096
/-- `MAX_SIGNATURE_LEN` -/
def maxSignatureLen : Nat := 128
/-- `SPKG` -/
def spkg : Nat := 91
/-- `EPKG` -/
def epkg : Nat := 93
/-- `SPKG_PB` -/
def spkgPb : Nat := 123
/-- `EPKG_PB` -/
def epkgPb : Nat := 125

/-- The error codes of basic_packet.h that the servers
answer with; `retCode` is the code that a response packet carries. -/
inductive Err where
  | server
  | invalidPacket
  | unknowCmd
  | checkTlv
  | decryptFailed
  | invalidCmdContent
  | invalidSignatureInfo
  | setMachineKeyFailed
  | invalidAppid
  | notFindMachine
  | appLogDispatchInvalid
  | logFreqOverLimit
  | retCode (c : Nat)
  deriving DecidableEq

/-- The parts of a packet that passed the check. `content` is the datagram from
`m_pstCmdContent` on, of which `wCmdContentLen` bytes are the content. -/
structure Packet where
  dwCmd : Nat
  dwSeq : Nat
  wVersion : Nat
  bSigType : Nat
  sSigValue : Bytes
  content : Bytes
  wCmdContentLen : Nat
  body : Bytes
  deriving DecidableEq

/-! ## TLVs -/

/-- The loop of `CheckPkgBody` over the TLVs that are left;
mirrors sv_struct.cpp:171-180 -/
def checkTlvs : Nat → Bytes → Option Bool
  | 0, _ => some true
  | n + 1, b => do
    if b.length < twTlvLen then pure false
    else
      let wLen ← rd16 b 2
      if b.length < wLen + twTlvLen then pure false
      else checkTlvs n (b.drop (wLen + twTlvLen))

/-- mirrors sv_struct.cpp:162-182 -/
def checkPkgBody (body : Bytes) : Option Bool := do
  if body.length < tPkgBodyLen then pure false
  else
    let bTlvNum ← rd8 body 0
    checkTlvs bTlvNum (body.drop tPkgBodyLen)

structure Tlv where
  wLen : Nat
  sValue : Bytes
  deriving DecidableEq

/-- mirrors sv_struct.cpp:71-77 -/
def findTlv (wType : Nat) : Nat → Bytes → Option (Option Tlv)
  | 0, _ => some none
  | n + 1, b => do
    let t ← rd16 b 0
    let wLen ← rd16 b 2
    if t = wType then pure (some ⟨wLen, b.drop twTlvLen⟩)
    else findTlv wType n (b.drop (wLen + twTlvLen))

/-- mirrors sv_struct.cpp:67-78 -/
def getWTlvByType2 (wType : Nat) (body : Bytes) : Option (Option Tlv) := do
  let bTlvNum ← rd8 body 0
  findTlv wType bTlvNum (body.drop tPkgBodyLen)

/-! ## The check -/

/-- `int` arithmetic, as two's complement. -/
def wrap32 (x : Int) : Int := Int.bmod x 4294967296

/-- A number read at a position that may be in front of the datagram. -/
def rd32At (b : Bytes) (i : Int) : Option Nat := if i < 0 then none else rd32 b i.toNat

/-- The members of `CBasicPacket` that the check of the protobuf framing sets. -/
structure PbMembers where
  m_iPbHeadLen : Int
  m_iPbBodyLen : Int
  m_bIsPbReq : Bool
  deriving DecidableEq

/-- The number behind the head may be read behind the datagram.
mirrors basic_packet.cpp:193-218 -/
def isPacketPbIn (m : PbMembers) (buf behind : Bytes) : Option (PbMembers × Bool) := do
  if buf.length ≤ 10 then pure (m, false)
  else
    let first ← rd8 buf 0
    let last ← rd8 buf (buf.length - 1)
    if first ≠ spkgPb ∨ last ≠ epkgPb then pure (m, false)
    else
      let iPbHeadLen := toS32 (← rd32 buf 1)
      if wrap32 buf.length < wrap32 (iPbHeadLen + 2 + 4) then
        pure ({ m with m_iPbHeadLen := 0, m_bIsPbReq := false }, false)
      else
        let iPbBodyLen := toS32 (← rd32At (buf ++ behind) (1 + 4 + iPbHeadLen))
        if wrap32 (iPbHeadLen + iPbBodyLen + 10) ≠ wrap32 buf.length then
          pure (⟨0, 0, false⟩, false)
        else pure (⟨iPbHeadLen, iPbBodyLen, true⟩, true)

/-- With nothing behind the datagram. -/
def PbMembers.isPacketPb (m : PbMembers) (buf : Bytes) : Option (PbMembers × Bool) :=
  isPacketPbIn m buf []

/-- What it returns, which does not depend on the members. -/
def isPacketPb (buf : Bytes) : Option Bool := (PbMembers.isPacketPb ⟨0, 0, false⟩ buf).map Prod.snd

/-- What is read of `*m_pstReqHead` behind the check. -/
structure HeadFields where
  dwCmd : Nat
  dwSeq : Nat
  qwSessionId : Nat
  deriving DecidableEq

/-- The members of `CBasicPacket` that the check sets on its way; `none` is `NULL`. The
content is the memory from `m_pstCmdContent` on. -/
structure Members where
  m_pstReqHead : Option HeadFields
  m_pstCmdContent : Option Bytes
  m_wCmdContentLen : Nat
  deriving DecidableEq

/-- mirrors slog_mtreport_client/mtreport_basic_pkg.cpp:118-141 -/
def resetPacketInfo : Members := ⟨none, none, 0⟩

/-- What the checks of server and agent have in common: the members they leave behind, and
the packet and its error code, or the error. mirrors basic_packet.cpp:308-357 and
slog_mtreport_client/mtreport_basic_pkg.cpp:153-202 -/
def checkSteps (wSigMax : Nat) (buf : Bytes) : Option (Members × Except Err (Packet × Nat)) := do
  let len := buf.length
  if len ≤ 2 + reqPkgHeadLen then return (resetPacketInfo, .error .invalidPacket)
  let wPkgLen ← rd16 buf 9
  let first ← rd8 buf 0
  let last ← rd8 buf (len - 1)
  if wPkgLen ≠ len ∨ maxUdpReqPacketSize < len ∨ first ≠ spkg ∨ last ≠ epkg then
    return (resetPacketInfo, .error .invalidPacket)
  let dwCmd ← rd32 buf 1
  let dwSeq ← rd32 buf 5
  let wToPkgBody ← rd16 buf 11
  let bRetCode ← rd8 buf 13
  let wVersion ← rd16 buf 15
  let qwSessionId ← rd64 buf 53
  let m := { resetPacketInfo with m_pstReqHead := some ⟨dwCmd, dwSeq, qwSessionId⟩ }
  let wRemainLen := len - (2 + reqPkgHeadLen)
  if wRemainLen < tSignatureLen then return (m, .error .invalidPacket)
  let bSigType ← rd8 buf (1 + reqPkgHeadLen)
  let wSigLen ← rd16 buf (2 + reqPkgHeadLen)
  if wRemainLen < tSignatureLen + wSigLen ∨ wSigMax < wSigLen then
    return (m, .error .invalidPacket)
  let wBasicLen := 1 + reqPkgHeadLen + tSignatureLen + wSigLen
  if wToPkgBody < wBasicLen ∨ len < wToPkgBody + tPkgBodyLen then
    return (m, .error .invalidPacket)
  let content := buf.drop wBasicLen
  let wCmdContentLen := wToPkgBody - wBasicLen
  let m := if wBasicLen < wToPkgBody then
      { m with m_pstCmdContent := some content, m_wCmdContentLen := wCmdContentLen }
    else m
  let body := slice buf wToPkgBody (len - wToPkgBody - 1)
  if !(← checkPkgBody body) then return (m, .error .checkTlv)
  let sSigValue := slice buf (1 + reqPkgHeadLen + tSignatureLen) wSigLen
  return (m, .ok (⟨dwCmd, dwSeq, wVersion, bSigType, sSigValue, content, wCmdContentLen, body⟩,
    bRetCode))

/-- What they return. -/
def checkParts (wSigMax : Nat) (buf : Bytes) : Option (Except Err (Packet × Nat)) :=
  (checkSteps wSigMax buf).map Prod.snd

/-- What `CheckBasicPacket` finds; a packet in the protobuf framing is not
looked at further here. -/
inductive Checked where
  | pb
  | ok (p : Packet)
  | err (e : Err)
  deriving DecidableEq

/-- The end of the server's check: a packet with an error code is an error. -/
def Checked.ofParts : Except Err (Packet × Nat) → Checked
  | .error e => .err e
  | .ok (p, bRetCode) => if bRetCode ≠ 0 then .err (.retCode bRetCode) else .ok p

/-- mirrors basic_packet.cpp:276-378 -/
def checkBasicPacket (buf : Bytes) : Option Checked := do
  if ← isPacketPb buf then return .pb
  (checkParts maxSignatureLen buf).map Checked.ofParts

end DesPwd.L1.BasicPacket
