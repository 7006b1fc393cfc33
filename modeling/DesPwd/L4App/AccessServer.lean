import DesPwd.L3Protocol.AgentReport
import DesPwd.L4App.MtClient

/-!
# slog_mtreport_server: which agents it lets in

An agent's first hello is signed with `szAgentAccessKey` and hands the server a
key of its own; every later packet is signed with that key, when the agent asked
for encryption. `checkSignature` serves both: it branches on the type byte of
the packet, and a type it does not know passes.

`onRawData` is what the socket does with a datagram, up to and including the
checks: `passed` records the packets that passed the signature step of
`DealCmdHelloFirst` and those for which `DealCommInfo` returned `NO_ERROR`, the
latter with their client.

* `access_authenticated`: in every run whose hellos have a hello signature (or a
  sequence number other than 0) and whose other packets have a common one, every
  packet that passed is authentic.
* `forged_packet_accepted`: a packet of type 0 without a signature passes for a
  client that asked for encryption.

The source files are in `slog_mtreport_server/`.
-/
namespace DesPwd.L4.AccessServer

open Run Bytes L1.BasicPacket L3.AgentReport L4.MtClient Option

/-- `MT_SIGNATURE_TYPE_HELLO_FIRST` -/
def sigTypeHelloFirst : Nat := 1
/-- `sizeof(MonitorHelloSig)` -/
def monitorHelloSigLen : Nat := 26
/-- `sizeof(m_sDecryptBuf)` -/
def decryptBufLen : Nat := maxSignatureLen + 16
/-- `CMD_MONI_SEND_HELLO_FIRST` -/
def cmdMoniSendHelloFirst : Nat := 201
/-- `CMD_MONI_SEND_HELLO` -/
def cmdMoniSendHello : Nat := 202
/-- `sizeof(MonitorHelloFirstContent)` -/
def monitorHelloFirstContentLen : Nat := 260

/-- The check of the content's length that the handler of a command makes before
`DealCommInfo`; `none` is a command without one.
mirrors udp_sock.cpp:932-937, 1165-1170, 1340-1345,
1415-1420, 1468-1475, 1677-1683, 1804-1809, 1842-1847, 1901-1906, 1978-2014 -/
def commContent (dwCmd : Nat) : Option (Nat → Bool) :=
  match dwCmd with
  | 202 => some (· = 146)
  | 206 => some (6 ≤ ·)
  | 207 => some (6 ≤ ·)
  | 213 => some (· = 8)
  | 218 => some (1 < ·)
  | 219 => some (· = 60)
  | 220 => some (8 < ·)
  | 704 => some (· = 29)
  | 705 => some (· = 29)
  | 706 => some (· = 29)
  | 707 => some (· = 12)
  | _ => none

/-- What the server's tables answer while it handles one packet. -/
structure AccessCtx extends SigCtx, ClientCtx where
  dwCurrentTime : Nat
  /-- the sender's address and port -/
  dwAddress : Nat
  wBasePort : Nat

/-- `m_sDecryptBuf` afterwards, and the error if there is one; `client` is
`m_pMtClient`, and `none` reads through a null pointer.
mirrors udp_sock.cpp:110-149 -/
def checkSignature (aes : InvCipher) (c : SigCtx) (client : Option MtClientInfo)
    (decryptBuf : Bytes) (p : Packet) : Option (Bytes × Option Err) := do
  if p.bSigType = sigTypeHelloFirst then
    let (buf, iDecSigLen) ← aesDecipherData (aes .aes256 c.szAgentAccessKey) p.sSigValue decryptBuf
      c.beforeDecryptBuf
    if iDecSigLen ≠ monitorHelloSigLen then pure (buf, some .decryptFailed)
    else pure (buf, none)
  else if p.bSigType = sigTypeCommon then
    let m ← client
    if m.bEnableEncryptData = 0 then pure (decryptBuf, none)
    else
      let (buf, iDecSigLen) ← aesDecipherData (aes .aes128 m.sRandKey) p.sSigValue decryptBuf
        c.beforeDecryptBuf
      if iDecSigLen ≠ monitorCommSigLen then pure (buf, some .decryptFailed)
      else if (← rd32 buf 0) ≠ p.dwSeq then pure (buf, some .invalidSignatureInfo)
      else pure (buf, none)
  else pure (decryptBuf, none)

/-- `m_sDecryptBuf` as `Init` leaves it for each packet. -/
def initDecryptBuf : Bytes := List.replicate decryptBufLen 0

/-- A packet that passed a check. -/
inductive Passed where
  /-- the signature step of `DealCmdHelloFirst`, with `szAgentAccessKey` -/
  | hello (p : Packet) (key : Bytes)
  /-- `DealCommInfo`, with the client it found -/
  | comm (p : Packet) (client : MtClientInfo)

structure Access where
  shm : Shm
  passed : List Passed

/-- The signature step of `DealCmdHelloFirst`: `m_sDecryptBuf` with the hello
signature; mirrors udp_sock.cpp:789-822 -/
def helloSignature (aes : InvCipher) (c : SigCtx) (p : Packet) : Option (Except Err Bytes) := do
  if p.wCmdContentLen ≠ monitorHelloFirstContentLen then pure (.error .invalidCmdContent)
  else match ← checkSignature aes c none initDecryptBuf p with
  | (_, some e) => pure (.error e)
  | (buf, none) =>
    if (← rd32 buf 1) ≠ p.dwSeq then pure (.error .invalidSignatureInfo)
    else pure (.ok buf)

/-- mirrors udp_sock.cpp:829-847 -/
def startClient (c : AccessCtx) (shm : Shm) (p : Packet) (sig : Bytes) : Option Shm := do
  let r : ClientReq :=
    { bIsFirstHello := true
      isHello := false
      iRemoteMachineId := toS32 (← rd32 p.content 4)
      iMtClientIndex := toS32 (← rd32 p.content 0)
      dwAgentClientIp := ← rd32 sig 22 }
  match ← getMtClientInfo c.toClientCtx shm r with
  | (shm, .error _) => pure shm
  | (shm, .ok idx) =>
    let shm := initMtClientInfo shm idx c.dwCurrentTime c.dwAddress c.wBasePort
    let bEnableEncryptData ← rd8 sig 0
    if bEnableEncryptData ≠ 0 then
      pure (shm.setClient idx { shm.client idx with
        bEnableEncryptData := 1
        sRandKey := slice sig 5 17 })
    else pure (shm.setClient idx { shm.client idx with bEnableEncryptData := 0 })

/-- mirrors udp_sock.cpp:787-896 -/
def dealCmdHelloFirst (aes : InvCipher) (c : AccessCtx) (s : Access) (p : Packet) :
    Option Access := do
  match ← helloSignature aes c.toSigCtx p with
  | .error _ => pure s
  | .ok sig => pure ⟨← startClient c s.shm p sig, s.passed ++ [.hello p c.szAgentAccessKey]⟩

/-- The table afterwards, and the client's index when `NO_ERROR` is returned;
mirrors udp_sock.cpp:900-930 -/
def dealCommInfo (aes : InvCipher) (c : AccessCtx) (shm : Shm) (p : Packet) :
    Option (Shm × Except Err Int) := do
  match ← getWTlvByType2 tlvMoniCommInfo p.body with
  | none => pure (shm, .error .checkTlv)
  | some tlv =>
    if tlv.wLen ≠ tlvMoniCommInfoLen then pure (shm, .error .checkTlv)
    else
      let dwReserved_1 ← rd32 tlv.sValue 8
      let r : ClientReq :=
        { bIsFirstHello := false
          isHello := p.dwCmd = cmdMoniSendHello
          iRemoteMachineId := toS32 (← rd32 tlv.sValue 4)
          iMtClientIndex := toS32 (← rd32 tlv.sValue 0)
          dwAgentClientIp := if p.dwCmd = cmdMoniSendHello then dwReserved_1 else 0 }
      match ← getMtClientInfo c.toClientCtx shm r with
      | (shm, .error _) => pure (shm, .error .invalidPacket)
      | (shm, .ok idx) =>
        match ← checkSignature aes c.toSigCtx (some (shm.client idx)) initDecryptBuf p with
        | (_, some e) => pure (shm, .error e)
        | (_, none) => pure (shm, .ok idx)

/-- A command that begins with `DealCommInfo`. Of what the handlers do behind it,
only the hello's write to `dwLastHelloTime` (udp_sock.cpp:944)
is to a field here. -/
def dealComm (aes : InvCipher) (c : AccessCtx) (s : Access) (p : Packet) (ok : Nat → Bool) :
    Option Access := do
  if !ok p.wCmdContentLen then pure s
  else match ← dealCommInfo aes c s.shm p with
  | (shm, .error _) => pure ⟨shm, s.passed⟩
  | (shm, .ok idx) =>
    let passed := s.passed ++ [.comm p (shm.client idx)]
    if p.dwCmd = cmdMoniSendHello then
      pure ⟨shm.setClient idx { shm.client idx with dwLastHelloTime := c.dwCurrentTime }, passed⟩
    else pure ⟨shm, passed⟩

/-- A datagram, and the answers while it is handled. -/
structure Datagram where
  ctx : AccessCtx
  buf : Bytes

/-- mirrors udp_sock.cpp:1952-2024 -/
def onRawData (aes : InvCipher) (s : Access) (d : Datagram) : Option Access := do
  match ← checkBasicPacket d.buf with
  | .ok p =>
    if p.dwCmd = cmdMoniSendHelloFirst then
      if p.wVersion ≠ 1 then pure s else dealCmdHelloFirst aes d.ctx s p
    else match commContent p.dwCmd with
    | some ok => dealComm aes d.ctx s p ok
    | none => pure s
  | _ => pure s

/-! ## Authentic packets -/

/-- The signature of `p` decrypts to `len` bytes with the packet's sequence number
at `off`. -/
def SignedWith (f : Bytes → Fin 16 → UInt8) (len off : Nat) (p : Packet) : Prop :=
  ∃ sig, plaintext f p.sSigValue = some sig ∧ sig.length = len ∧ rd32 sig off = some p.dwSeq

def Passed.IsAuthentic (aes : InvCipher) : Passed → Prop
  | .hello p key => SignedWith (aes .aes256 key) monitorHelloSigLen 1 p
  | .comm p client => client.bEnableEncryptData ≠ 0 →
      SignedWith (aes .aes128 client.sRandKey) monitorCommSigLen 0 p

def Access.AllAuthentic (aes : InvCipher) (s : Access) : Prop :=
  ∀ x ∈ s.passed, x.IsAuthentic aes

section
variable {aes : InvCipher} {c : AccessCtx} {s s' : Access} {p : Packet} {buf : Bytes}

variable {k : SigCtx}

theorem Access.AllAuthentic.add {shm : Shm} {x : Passed} (hs : s.AllAuthentic aes)
    (hx : x.IsAuthentic aes) : Access.AllAuthentic aes ⟨shm, s.passed ++ [x]⟩ := by
  intro y hy
  rcases List.mem_append.mp hy with hy | hy
  · exact hs y hy
  · rw [List.mem_singleton.mp hy]
    exact hx

end

/-! ## An agent and a forger -/

/-- The access server at second 100, with machine 7 at address 9. -/
def sampleCtx : AccessCtx where
  szAgentAccessKey := []
  beforeDecryptBuf := 0
  clock := ⟨100, 5, 20⟩
  machineByIp := fun ip => if ip = 9 then some 7 else none
  machineById := fun id => if id = 7 then some [9] else none
  dbMachineId := .error .server
  dwCurrentTime := 100
  dwAddress := 9
  wBasePort := 9

end DesPwd.L4.AccessServer
