import DesPwd.Core.ProtoWire
import DesPwd.L1Encoding.PacketMake
import DesPwd.L1Encoding.PbFrame

/-!
# Acknowledgements of acknowledgements

A server checks a datagram with `CheckBasicPacket` and answers with `AckToReq` or
`AckToReqPb` of the same `CBasicPacket`. An answer carries `MAGIC_RESPONSE_NUM`,
and what carries it is not answered
(lib/mtagent_api_open/basic_packet.cpp).

`ResetPacketInfo` leaves `m_pbHead` and `m_bParsePbHead` as the packet before left
them. `CheckBasicPacketPb` clears `m_bParsePbHead`, but with `bUseSelfBuf` it returns
before that for a packet that does not fit `m_sCommBuf`, and `AckToReqPb` builds
answers of up to 8192 bytes. The answer to such a packet is decided by the head of
an earlier one.

Only the members that the answer depends on are in the model. The tests of
`CheckBasicPacket` behind the head decide its return value and write at most into
the body. A read outside the memory of the datagram, or a write outside a buffer, is
`none`; `some none` is an answer that is not sent. The generated class of the
protobuf head is a `HeadCodec`.

* `Reply`: the two kinds of packets that are sent.
* `ackToReq_packet`, `ackToReq_frame`: what a server sends for one of each kind.
* `no_ack_loop_iff`: which objects send nothing for an answer.
* `stale_head_answers`: one that does.
-/
namespace DesPwd.L3.AckLoop

open Bytes ProtoWire L1.BasicPacket L1.PacketForm L1.PacketMake L1.PbFrame UInt32
open List hiding Vector

/-! ## The protobuf head -/

/-- What the server uses of `::comm::PkgHead`. A failed parse leaves some message
too. -/
structure HeadCodec (H : Type) where
  parseFromArray : Bytes → H × Bool
  appendToString : H → Bytes
  uint32_magic_response_num : H → UInt32
  set_uint32_result : UInt32 → H → H
  set_uint32_magic_response_num : UInt32 → H → H
  set_str_errmsg : Bytes → H → H
  magic_set : ∀ n h, uint32_magic_response_num (set_uint32_magic_response_num n h) = n
  magic_set_errmsg : ∀ s h,
    uint32_magic_response_num (set_str_errmsg s h) = uint32_magic_response_num h
  /-- A field that is not 0 is written. -/
  append_ne_nil : ∀ h, uint32_magic_response_num h ≠ 0 → appendToString h ≠ []
  /-- What was written and is parsed again has the field. -/
  magic_parse : ∀ h h', parseFromArray (appendToString h) = (h', true) →
    uint32_magic_response_num h' = uint32_magic_response_num h

/-! ## The object -/

/-- `m_sCommBuf` -/
abbrev CommBuf := { b : Bytes // b.length = maxUdpReqPacketSize }

/-- `memcpy` to the front of the buffer. -/
def CommBuf.fill (buf : CommBuf) (d : Bytes) : CommBuf :=
  ⟨(overwrite d buf.1).take maxUdpReqPacketSize, by
    have := buf.2
    simp only [overwrite, length_take, length_append, length_drop]
    omega⟩

/-- A datagram, what stands behind it in memory, and the flag it is checked with. -/
structure Datagram where
  pPkg : Bytes
  behind : Bytes
  bUseSelfBuf : Bool

/-- A pointer is the memory from there on.
mirrors basic_packet.h:180-211 -/
structure Obj (H : Type) where
  m_pReqPkg : Option Bytes
  m_pstReqHead : Option Bytes
  resp : Resp
  m_sCommBuf : CommBuf
  m_bIsResponse : Bool
  pb : PbMembers
  m_pbHead : H
  m_bParsePbHead : Bool

/-- No part was set. -/
def noResp : Resp := ⟨none, [], none⟩

variable {H : Type}

/-- mirrors basic_packet.cpp:158-184 -/
def Obj.resetPacketInfo (o : Obj H) : Obj H :=
  { o with
    m_pReqPkg := none
    m_pstReqHead := none
    resp := noResp
    m_bIsResponse := false
    pb := { o.pb with m_bIsPbReq := false } }

/-! ## CheckBasicPacket -/

/-- The datagram is to be copied and does not fit. -/
def Datagram.TooLong (d : Datagram) : Prop :=
  d.bUseSelfBuf = true ∧ maxUdpReqPacketSize < d.pPkg.length

instance (d : Datagram) : Decidable d.TooLong := inferInstanceAs (Decidable (_ ∧ _))

/-- The memory that the packet is in afterwards. -/
def Datagram.memory (d : Datagram) (buf : CommBuf) : Bytes :=
  if d.bUseSelfBuf then (buf.fill d.pPkg).1 else d.pPkg ++ d.behind

/-- `m_pReqPkg` and `m_sCommBuf` for a packet that is not too long. -/
def Obj.keep (o : Obj H) (d : Datagram) : Obj H :=
  { o with
    m_pReqPkg := some (d.memory o.m_sCommBuf)
    m_sCommBuf := if d.bUseSelfBuf then o.m_sCommBuf.fill d.pPkg else o.m_sCommBuf }

/-- mirrors basic_packet.cpp:220-274 -/
def Obj.checkBasicPacketPb (C : HeadCodec H) (o : Obj H) (d : Datagram) : Option (Obj H) :=
  let o := { o with pb := { o.pb with m_bIsPbReq := true } }
  if d.TooLong then some { o with m_pReqPkg := some (d.pPkg ++ d.behind) }
  else
    let mem := d.memory o.m_sCommBuf
    let o := { o.keep d with m_bParsePbHead := false }
    if d.pPkg.length ≤ 10 ∨ rd8 d.pPkg 0 ≠ some spkgPb ∨
        rd8 d.pPkg (d.pPkg.length - 1) ≠ some epkgPb then some o
    else if o.pb.m_iPbHeadLen ≤ 0 then some o
    else if mem.length < 5 + o.pb.m_iPbHeadLen.toNat then none
    else
      let parsed := C.parseFromArray (slice mem 5 o.pb.m_iPbHeadLen.toNat)
      some { o with m_pbHead := parsed.1, m_bParsePbHead := parsed.2 }

/-- The first test of a packet that is not protobuf.
mirrors basic_packet.cpp:304-313 -/
def headOk (buf : Bytes) : Option Bool := do
  if buf.length ≤ 2 + reqPkgHeadLen then pure false
  else
    let wPkgLen ← rd16 buf 9
    let first ← rd8 buf 0
    let last ← rd8 buf (buf.length - 1)
    pure (decide (wPkgLen = buf.length ∧ buf.length ≤ maxUdpReqPacketSize ∧ first = spkg ∧ last = epkg))

/-- mirrors basic_packet.cpp:276-378 -/
def Obj.checkBasicPacket (C : HeadCodec H) (o : Obj H) (d : Datagram) : Option (Obj H) := do
  let o := o.resetPacketInfo
  let (pb, isPb) ← isPacketPbIn o.pb d.pPkg d.behind
  let o := { o with pb := pb }
  if isPb then o.checkBasicPacketPb C d
  else if d.TooLong then some { o with m_pReqPkg := some (d.pPkg ++ d.behind) }
  else
    let mem := d.memory o.m_sCommBuf
    let o := o.keep d
    if ← headOk d.pPkg then pure { o with m_pstReqHead := some (mem.drop 1) } else pure o

/-! ## The texts of the errors -/

/-- mirrors basic_packet.cpp:82-146 -/
def getErrMsg (err : Int) : String :=
  match err with
  | 0 => "no error" -- NO_ERROR
  | 1 => "error server (bug) !" -- ERR_SERVER
  | 2 => "error invalid packet !" -- ERR_INVALID_PACKET
  | 3 => "error invalid packet length !" -- ERR_INVALID_PACKET_LEN
  | 4 => "error unknow cmd !" -- ERR_UNKNOW_CMD
  | 5 => "error check tlv !" -- ERR_CHECK_TLV
  | 6 => "error check signature failed" -- ERR_CHECK_SIGNATUR
  | 8 => "error invalid tlv value !" -- ERR_INVALID_TLV_VALUE
  | 9 => "find tlv failed !" -- ERR_FIND_TLV
  | 10 => "response size over limit !" -- ERR_RESP_SIZE_OVER_LIMIT
  | 11 => "http keep socket not find !" -- ERR_HTTP_KEEP_NOT_FIND
  | 12 => "decrypt failed !" -- ERR_DECRYPT_FAILED
  | 13 => "find session failed !" -- ERR_FIND_SESSION_INFO
  | 14 => "invalid cmd content !" -- ERR_INVALID_CMD_CONTENT
  | 15 => "check distribute failed !" -- ERR_CHECK_DISTRIBUTE
  | 16 => "check body md5 failed !" -- ERR_CHECK_BODY_MD5
  | 17 => "unknow signature type !" -- ERR_UNKNOW_SIGTYPE
  | 18 => "no user master find !" -- ERR_NO_USER_MASTER
  | 19 => "decrypt signature failed !" -- ERR_DECRYPT_SIGNATURE
  | 20 => "invalid signature decrypt info !" -- ERR_INVALID_SIGNATURE_INFO
  | 21 => "check packet crc failed !" -- ERR_CHECK_PACKET_CRC
  | 22 => "machine have no access right !" -- ERR_CHECK_MACHINE_ACCESS_RIGHT
  | 23 => "have no response content !" -- ERR_NO_RESPONSE_CONTENT
  | 25 => "invalid appid, not find !" -- ERR_INVALID_APPID
  | 26 => "not find report machine !" -- ERR_NOT_FIND_MACHINE
  | 27 => "dispatch log server invalid !" -- ERR_APP_LOG_DISPATCH_INVALID
  | 28 => "dispatch attr server invalid !" -- ERR_ATTR_DISPATCH_INVALID
  | 29 => "invalid magic, please change !" -- ERR_INVALID_MAGIC
  | 30 => "log freq over limit !" -- ERR_LOG_FREQ_OVER_LIMIT
  | _ => "unknow error !"

/-- Behind the count and the head of the TLV, each text fits `sTmpBuf[128]`. -/
theorem length_getErrMsg (err : Int) :
    tPkgBodyLen + twTlvLen + (txt (getErrMsg err)).length ≤ 128 := by
  unfold getErrMsg
  split <;> decide +kernel

/-- The body of an answer with an error. -/
def errBody (err : Int) : TPkgBody where
  stTlv := [⟨UInt16.ofNat tlvAckError, txt (getErrMsg err), by have := length_getErrMsg err; omega⟩]
  num_lt := by rw [length_singleton]; decide

/-! ## AckToReq -/

/-- The head of an answer. -/
def ackHead (C : HeadCodec H) (iRetCode : Int) (h : H) : H :=
  let h := C.set_uint32_magic_response_num magicResponseNum (C.set_uint32_result (ofInt iRetCode) h)
  if iRetCode ≠ 0 then C.set_str_errmsg (txt (getErrMsg iRetCode)) h else h

/-- `SPKG_PB`, the head and the body behind their lengths, `EPKG_PB`. -/
def pbFrame (strHead strBody : Bytes) : Bytes :=
  UInt8.ofNat spkgPb :: (put32 (ofNat strHead.length) ++ (strHead ++
    (put32 (ofNat strBody.length) ++ (strBody ++ [UInt8.ofNat epkgPb]))))

/-- The frame, if it fits the buffer; the static one has 8192 bytes.
mirrors basic_packet.cpp:39-79 -/
def setPacketPb (strHead strBody : Bytes) (ibufLen : Int32) : Option Bytes :=
  if (if ibufLen ≤ 0 then 8192 else ibufLen.toInt) < wrap32 (strHead.length + strBody.length + 10)
  then none
  else some (pbFrame strHead strBody)

/-- The head is of a request that was parsed and is no answer. -/
def Obj.Answers (C : HeadCodec H) (o : Obj H) : Prop :=
  o.m_bParsePbHead = true ∧ C.uint32_magic_response_num o.m_pbHead ≠ magicResponseNum

instance (C : HeadCodec H) (o : Obj H) : Decidable (o.Answers C) :=
  inferInstanceAs (Decidable (_ ∧ _))

/-- An answer built in `sBuf[iBufLen]`; `big` is what comes of one that does not fit. -/
def Obj.ackPb (C : HeadCodec H) (o : Obj H) (strBody : Bytes) (iRetCode : Int) (iBufLen : Nat)
    (big : Option (Option Bytes)) : Option (Option Bytes) :=
  if o.Answers C then
    let strHead := C.appendToString (ackHead C iRetCode o.m_pbHead)
    if iBufLen < strHead.length + strBody.length + 10 then big
    else some (some (pbFrame strHead strBody))
  else some none

/-- With a body; built in `static char sBuf[8192]`.
mirrors basic_packet.cpp:380-432 -/
def Obj.ackToReqPbBody (C : HeadCodec H) (o : Obj H) (strBody : Bytes) (iRetCode : Int) :
    Option (Option Bytes) :=
  o.ackPb C strBody iRetCode 8192 (some none)

/-- Without a body; built in `char sBuf[1024]`, whose size is not looked at.
mirrors basic_packet.cpp:434-475 -/
def Obj.ackToReqPb (C : HeadCodec H) (o : Obj H) (iRetCode : Int) : Option (Option Bytes) :=
  o.ackPb C [] iRetCode 1024 none

theorem size_slice {m : Bytes} {i n : Nat} (h : i + n ≤ m.length) :
    (slice m i n).toArray.size = n := by
  simp only [slice, size_toArray, length_take, length_drop]
  omega

/-- The `n` bytes from `i` on, as an array. -/
def rdVec (m : Bytes) (i n : Nat) : Option (Vector UInt8 n) :=
  if h : i + n ≤ m.length then some ⟨(slice m i n).toArray, size_slice h⟩ else none

/-- The memory of a `ReqPkgHead`. -/
def readHead (m : Bytes) : Option ReqPkgHead := do
  pure
    { dwCmd := ofNat (← rd32 m 0)
      dwSeq := ofNat (← rd32 m 4)
      wPkgLen := UInt16.ofNat (← rd16 m 8)
      wToPkgBody := UInt16.ofNat (← rd16 m 10)
      bRetCode := UInt8.ofNat (← rd8 m 12)
      bResendTimes := UInt8.ofNat (← rd8 m 13)
      wVersion := UInt16.ofNat (← rd16 m 14)
      dwRespMagicNum := ofNat (← rd32 m 16)
      sEchoBuf := ← rdVec m 20 32
      qwSessionId := UInt64.ofNat (← rd64 m 52)
      sReserved := ← rdVec m 60 8 }

/-- What `MakePacket` has left to send. -/
def sent : Made → Option Bytes
  | .made b => some b
  | _ => none

/-- `MakePacket` in `m_sCommBuf`, with `m_bIsResponse` set. The head of the request is
read only when the packet fits.
mirrors basic_packet.cpp:499-503, 506-568 -/
def Obj.sendPacket (o : Obj H) (r : Resp) (iRetCode : Int) : Option (Option Bytes) :=
  let make head := sent (serverMakePacket head none true r (some maxUdpReqPacketSize) (UInt8.ofInt iRetCode))
  match o.m_pstReqHead.or (o.m_pReqPkg.map (List.drop 1)) with
  | none => some (make none)
  | some m =>
    if maxUdpReqPacketSize < r.need then some none
    else (readHead m).map fun head => make (some head)

/-- `ntohl(m_pstReqHead->dwRespMagicNum)`, when there is a head. -/
def Obj.dwRespMagicNum (o : Obj H) : Option (Option Nat) :=
  match o.m_pstReqHead with
  | none => some none
  | some m => (rd32 m 16).map some

/-- mirrors basic_packet.cpp:477-504 -/
def Obj.ackToReq (C : HeadCodec H) (o : Obj H) (iRetCode : Int) : Option (Option Bytes) :=
  if o.pb.m_bIsPbReq then o.ackToReqPb C iRetCode
  else do
    let dwRespMagicNum ← o.dwRespMagicNum
    if dwRespMagicNum = some magicResponseNum.toNat then pure none
    else
      let r := if iRetCode ≠ 0 then { o.resp with body := some (errBody iRetCode) } else o.resp
      o.sendPacket r iRetCode

inductive Ack where
  | ackToReq (iRetCode : Int)
  | ackToReqPb (iRetCode : Int)
  | ackToReqPbBody (strBody : Bytes) (iRetCode : Int)

def Obj.ack (C : HeadCodec H) (o : Obj H) : Ack → Option (Option Bytes)
  | .ackToReq iRetCode => o.ackToReq C iRetCode
  | .ackToReqPb iRetCode => o.ackToReqPb C iRetCode
  | .ackToReqPbBody strBody iRetCode => o.ackToReqPbBody C strBody iRetCode

/-- A datagram is checked and answered, with the parts `r` that the handler has set in
between. -/
def exchange (C : HeadCodec H) (o : Obj H) (d : Datagram) (r : Resp) (a : Ack) :
    Option (Option Bytes) := do
  let o ← o.checkBasicPacket C d
  { o with resp := r }.ack C a

/-! ## What is sent -/

/-- The packets that are sent: either kind carries the number. -/
inductive Reply (C : HeadCodec H) : Bytes → Prop where
  | packet (r : Resp) (head : ReqPkgHead) (hsize : r.pkgLen ≤ maxUdpReqPacketSize)
      (hmagic : head.dwRespMagicNum = magicResponseNum) : Reply C (r.packetBytes head)
  | frame (h : H) (strBody : Bytes) (hmagic : C.uint32_magic_response_num h = magicResponseNum)
      (hsize : (C.appendToString h).length + strBody.length + 10 ≤ 8192) :
      Reply C (pbFrame (C.appendToString h) strBody)

section Sent

variable {C : HeadCodec H} {o : Obj H} {e : Bytes}

theorem magic_ackHead (C : HeadCodec H) (iRetCode : Int) (h : H) :
    C.uint32_magic_response_num (ackHead C iRetCode h) = magicResponseNum := by
  unfold ackHead
  by_cases hcode : iRetCode ≠ 0
  · rw [if_pos hcode, C.magic_set_errmsg, C.magic_set]
  · rw [if_neg hcode, C.magic_set]

variable {iRetCode : Int} {r : Resp}

theorem ackPb_reply {strBody : Bytes} {iBufLen : Nat} {big : Option (Option Bytes)}
    (hbuf : iBufLen ≤ 8192) (hbig : big ≠ some (some e))
    (h : o.ackPb C strBody iRetCode iBufLen big = some (some e)) : Reply C e := by
  unfold Obj.ackPb at h
  by_cases hans : o.Answers C
  · rw [if_pos hans] at h
    dsimp only at h
    split at h
    · exact absurd h hbig
    · cases h
      exact .frame _ strBody (magic_ackHead C iRetCode o.m_pbHead) (by omega)
  · rw [if_neg hans] at h
    cases h

theorem ackToReqPb_reply (h : o.ackToReqPb C iRetCode = some (some e)) : Reply C e :=
  ackPb_reply (by decide) (by simp) h

theorem serverMakePacket_reply {head : Option ReqPkgHead} {iRetCode : UInt8}
    (h : sent (serverMakePacket head none true r (some maxUdpReqPacketSize) iRetCode) = some e) :
    Reply C e := by
  unfold serverMakePacket at h
  split at h
  · cases h
  case isFalse hroom =>
    cases head with
    | none => cases h
    | some head =>
      cases h
      refine .packet r _ (Nat.le_trans r.pkgLen_le_need ?_) rfl
      have hbuf : serverBufLen (some maxUdpReqPacketSize) = maxUdpReqPacketSize := rfl
      omega

theorem sendPacket_reply (h : o.sendPacket r iRetCode = some (some e)) : Reply C e := by
  unfold Obj.sendPacket at h
  split at h
  · exact serverMakePacket_reply (Option.some.inj h)
  · split at h
    · cases h
    · obtain ⟨head, -, hmade⟩ := Option.map_eq_some_iff.mp h
      exact serverMakePacket_reply hmade

theorem ack_reply {a : Ack} (h : o.ack C a = some (some e)) : Reply C e := by
  cases a with
  | ackToReq iRetCode =>
    rw [Obj.ack, Obj.ackToReq] at h
    split at h
    · exact ackToReqPb_reply h
    simp only [Option.bind_eq_bind, Option.bind_eq_some_iff] at h
    obtain ⟨dwRespMagicNum, -, h⟩ := h
    split at h
    · cases h
    · exact sendPacket_reply h
  | ackToReqPb iRetCode => exact ackToReqPb_reply h
  | ackToReqPbBody strBody iRetCode => exact ackPb_reply (by decide) (by simp) h

end Sent

/-! ## What is received -/

theorem memory_eq {d : Datagram} (h : ¬ d.TooLong) (buf : CommBuf) :
    ∃ rest, d.memory buf = d.pPkg ++ rest := by
  unfold Datagram.memory
  by_cases hself : d.bUseSelfBuf = true
  · have hlen : d.pPkg.length ≤ maxUdpReqPacketSize := Nat.not_lt.mp fun hlong => h ⟨hself, hlong⟩
    refine ⟨(buf.1.drop d.pPkg.length).take (maxUdpReqPacketSize - d.pPkg.length), ?_⟩
    rw [if_pos hself]
    exact take_append.trans (congrArg (· ++ _) (take_of_length_le hlen))
  · exact ⟨d.behind, by rw [if_neg hself]⟩

section Check

variable {C : HeadCodec H} {o : Obj H} {d : Datagram} {pb : PbMembers}

theorem checkBasicPacket_of_pb
    (h : isPacketPbIn o.resetPacketInfo.pb d.pPkg d.behind = some (pb, true)) :
    o.checkBasicPacket C d = { o.resetPacketInfo with pb := pb }.checkBasicPacketPb C d := by
  rw [Obj.checkBasicPacket, h]
  rfl

theorem checkBasicPacket_of_head
    (h : isPacketPbIn o.resetPacketInfo.pb d.pPkg d.behind = some (pb, false)) (hfits : ¬ d.TooLong)
    (hok : headOk d.pPkg = some true) :
    o.checkBasicPacket C d = some
      { { o.resetPacketInfo with pb := pb }.keep d with
        m_pstReqHead := some ((d.memory o.m_sCommBuf).drop 1) } := by
  rw [Obj.checkBasicPacket, h]
  simp only [hfits, hok]
  rfl

end Check

/-! ### A packet -/

section Packet

variable (r : Resp) (head : ReqPkgHead)

theorem length_packetBytes : (r.packetBytes head).length = r.pkgLen := by
  rw [r.packetBytes_eq, r.form_length]

theorem isPacketPbIn_packet (m : PbMembers) (behind : Bytes) (hlong : 10 < (r.packetBytes head).length) :
    isPacketPbIn m (r.packetBytes head) behind = some (m, false) := by
  have hfirst : rd8 (r.packetBytes head) 0 = some spkg := rfl
  obtain ⟨last, hlast⟩ := rd8_isSome (Nat.sub_one_lt_of_lt hlong)
  rw [isPacketPbIn, hlast]
  rfl

variable {r}

theorem headOk_packet (hsize : r.pkgLen ≤ maxUdpReqPacketSize) :
    headOk (r.packetBytes head) = some true := by
  have hfacts := (r.form_sized (Nat.le_refl _) hsize head).facts
  rw [← r.packetBytes_eq] at hfacts
  have hlong := hfacts.long
  rw [headOk, if_neg (by omega), hfacts.pkgLen, hfacts.first, hfacts.last]
  simp [hfacts.short]

variable (r) in
theorem rd32_packet_magic (rest : Bytes) :
    rd32 ((r.packetBytes head ++ rest).drop 1) 16 = some head.dwRespMagicNum.toNat := by
  rw [Resp.packetBytes, cons_append, drop_succ_cons, drop_zero, append_assoc,
    rd32_append (by rw [ReqPkgHead.length_bytes]; decide), ReqPkgHead.rd32_magic]

theorem checkBasicPacket_packet (C : HeadCodec H) (o : Obj H)
    (hsize : r.pkgLen ≤ maxUdpReqPacketSize) (behind : Bytes) (bUseSelfBuf : Bool) :
    ∃ o' rest, o.checkBasicPacket C ⟨r.packetBytes head, behind, bUseSelfBuf⟩ = some o' ∧
      o'.pb.m_bIsPbReq = false ∧ o'.m_pstReqHead = some ((r.packetBytes head ++ rest).drop 1) := by
  have hlong := length_packetBytes r head
  have hfits : ¬ Datagram.TooLong ⟨r.packetBytes head, behind, bUseSelfBuf⟩ := by
    rintro ⟨-, htoo⟩
    dsimp only at htoo
    omega
  have hten : 10 < (r.packetBytes head).length := by
    rw [hlong, Resp.pkgLen, Resp.toPkgBody, reqPkgHeadLen]
    omega
  have hpb := isPacketPbIn_packet r head o.resetPacketInfo.pb behind hten
  obtain ⟨rest, hmem⟩ := memory_eq hfits o.m_sCommBuf
  exact ⟨_, rest, checkBasicPacket_of_head hpb hfits (headOk_packet head hsize), rfl,
    congrArg (fun mem => some (mem.drop 1)) hmem⟩

variable {head}

theorem ackToReq_of_magic {C : HeadCodec H} {o : Obj H} {m : Bytes} (hpb : o.pb.m_bIsPbReq = false)
    (hhead : o.m_pstReqHead = some m) (hmagic : rd32 m 16 = some magicResponseNum.toNat)
    (iRetCode : Int) : o.ackToReq C iRetCode = some none := by
  have hnum : o.dwRespMagicNum = some (some magicResponseNum.toNat) := by
    rw [Obj.dwRespMagicNum, hhead]
    simp [hmagic]
  rw [Obj.ackToReq, hpb, hnum]
  rfl

/-- A packet that carries the number is not answered. -/
theorem ackToReq_packet (C : HeadCodec H) (o : Obj H) (hsize : r.pkgLen ≤ maxUdpReqPacketSize)
    (hmagic : head.dwRespMagicNum = magicResponseNum) (behind : Bytes) (bUseSelfBuf : Bool)
    (r' : Resp) (iRetCode : Int) :
    exchange C o ⟨r.packetBytes head, behind, bUseSelfBuf⟩ r' (.ackToReq iRetCode) = some none := by
  obtain ⟨o', rest, hcheck, hpb, hhead⟩ :=
    checkBasicPacket_packet head C o hsize behind bUseSelfBuf
  rw [exchange, hcheck]
  exact ackToReq_of_magic (o := { o' with resp := r' }) hpb hhead
    (by rw [rd32_packet_magic, hmagic]) iRetCode

end Packet

/-! ### A frame -/

section Frame

variable (strHead strBody : Bytes)

theorem length_pbFrame : (pbFrame strHead strBody).length = strHead.length + strBody.length + 10 := by
  simp only [pbFrame, length_cons, length_append, length_put32, length_nil]
  omega

theorem toNat_len {n : Nat} (h : n < 2147483648) : (ofNat n).toNat = n := by
  rw [toNat_ofNat']
  omega

theorem wrap32_of_lt {n : Nat} (h : n < 2147483648) : wrap32 n = n :=
  Int.bmod_eq_of_le (by omega) (by omega)

theorem rd32_headLen {strHead : Bytes} (hsize : strHead.length < 2147483648) :
    rd32 (pbFrame strHead strBody) 1 = some strHead.length :=
  ((rd32_append_right [UInt8.ofNat spkgPb] _ 0).trans (rd32_put32 _ _)).trans
    (congrArg some (toNat_len hsize))

theorem rd32_bodyLen {strBody : Bytes} (hsize : strBody.length < 2147483648) (rest : Bytes) :
    rd32 (pbFrame strHead strBody ++ rest) (5 + strHead.length) = some strBody.length := by
  have h := rd32_append_right (UInt8.ofNat spkgPb :: (put32 (ofNat strHead.length) ++ strHead))
    (put32 (ofNat strBody.length) ++ (strBody ++ [UInt8.ofNat epkgPb] ++ rest)) 0
  rw [rd32_put32, toNat_len hsize] at h
  simp only [append_assoc, length_cons, length_append, length_put32] at h
  simp only [pbFrame, cons_append, append_assoc]
  rw [← h]
  congr 1
  omega

theorem rd8_frame_last :
    rd8 (pbFrame strHead strBody) ((pbFrame strHead strBody).length - 1) = some epkgPb := by
  have hcut : pbFrame strHead strBody =
      (UInt8.ofNat spkgPb :: (put32 (ofNat strHead.length) ++ (strHead ++
        (put32 (ofNat strBody.length) ++ strBody)))) ++ [UInt8.ofNat epkgPb] := by
    simp [pbFrame]
  rw [hcut, length_append, length_singleton]
  exact rd8_append_right _ [UInt8.ofNat epkgPb] 0

theorem slice_head (rest : Bytes) :
    slice (pbFrame strHead strBody ++ rest) 5 strHead.length = strHead := by
  have h := slice_append (UInt8.ofNat spkgPb :: put32 (ofNat strHead.length)) strHead
    (put32 (ofNat strBody.length) ++ (strBody ++ [UInt8.ofNat epkgPb]) ++ rest)
  simp only [append_assoc] at h
  simp only [pbFrame, cons_append, append_assoc]
  exact h

theorem slice_body :
    slice (pbFrame strHead strBody) (5 + strHead.length + 4) strBody.length = strBody := by
  have h := slice_append (UInt8.ofNat spkgPb :: (put32 (ofNat strHead.length) ++ (strHead ++
    put32 (ofNat strBody.length)))) strBody [UInt8.ofNat epkgPb]
  simp only [cons_append, append_assoc, length_cons, length_append] at h
  rw [show 5 + strHead.length + 4 = 4 + (strHead.length + 4) + 1 by omega]
  exact h

variable {strHead strBody}

/-- The check leaves the lengths that the frame was built with. -/
theorem isPacketPbIn_frame (m : PbMembers) (behind : Bytes)
    (hsize : strHead.length + strBody.length + 10 < 2147483648) (hne : strHead ≠ []) :
    isPacketPbIn m (pbFrame strHead strBody) behind =
      some (⟨strHead.length, strBody.length, true⟩, true) := by
  have hpos := length_pos_iff.mpr hne
  have hlen := length_pbFrame strHead strBody
  have hfirst : rd8 (pbFrame strHead strBody) 0 = some spkgPb := rfl
  have hhead : toS32 strHead.length = strHead.length := by
    rw [toS32, if_pos (by omega)]
  have hbody : toS32 strBody.length = strBody.length := by
    rw [toS32, if_pos (by omega)]
  have hat : rd32At (pbFrame strHead strBody ++ behind) (1 + 4 + (strHead.length : Int)) =
      some strBody.length := by
    rw [rd32At, if_neg (by omega), show (1 + 4 + (strHead.length : Int)).toNat = 5 + strHead.length by omega,
      rd32_bodyLen strHead (by omega)]
  have hroom : ¬ wrap32 (pbFrame strHead strBody).length < wrap32 ((strHead.length : Int) + 2 + 4) := by
    rw [wrap32_of_lt (by omega), show (strHead.length : Int) + 2 + 4 = (strHead.length + 6 : Nat) by omega,
      wrap32_of_lt (by omega)]
    omega
  have hsum : wrap32 ((strHead.length : Int) + strBody.length + 10) =
      wrap32 (pbFrame strHead strBody).length := by
    rw [hlen]
    rfl
  rw [isPacketPbIn, if_neg (by omega), hfirst, rd8_frame_last, rd32_headLen strBody (by omega)]
  simp only [Option.bind_eq_bind, Option.bind_some, hhead, hat, hbody, hsum, hroom, if_false, ne_eq,
    not_true, or_self, Option.pure_def]

/-- A datagram that passes has the length that its lengths give. -/
theorem wrap32_of_isPacketPbIn {m m' : PbMembers} {buf behind : Bytes}
    (h : isPacketPbIn m buf behind = some (m', true)) :
    wrap32 (m'.m_iPbHeadLen + m'.m_iPbBodyLen + 10) = wrap32 buf.length := by
  simp only [isPacketPbIn, ite_eq_iff, Option.bind_eq_bind, Option.bind_eq_some_iff,
    Option.pure_def, Option.some.injEq, Prod.mk.injEq, Bool.false_eq_true, and_false, false_or,
    and_true] at h
  obtain ⟨-, first, -, last, -, -, n, -, -, k, -, heq, rfl⟩ := h
  exact not_not.mp heq

/-- **The frame round trip.** The check finds the lengths and the strings that the frame
was built with, and no shorter piece of the frame passes with these lengths. -/
theorem pb_frame_round_trip (strHead strBody : Bytes) (ibufLen : Int32) (hne : strHead ≠ [])
    (hfit : ((strHead.length + strBody.length + 10 : Nat) : Int) ≤
      if ibufLen ≤ 0 then 8192 else ibufLen.toInt) :
    ∃ pkg, setPacketPb strHead strBody ibufLen = some pkg ∧
      ∀ m behind, isPacketPbIn m pkg behind =
          some (⟨strHead.length, strBody.length, true⟩, true) ∧
        slice pkg 5 strHead.length = strHead ∧
        slice pkg (5 + strHead.length + 4) strBody.length = strBody ∧
        ∀ n < pkg.length, isPacketPbIn m (pkg.take n) behind ≠
          some (⟨strHead.length, strBody.length, true⟩, true) := by
  have hsize : strHead.length + strBody.length + 10 < 2147483648 := by
    have := ibufLen.toInt_lt
    split at hfit <;> omega
  have hsum : wrap32 ((strHead.length : Int) + strBody.length + 10) =
      (strHead.length + strBody.length + 10 : Nat) := wrap32_of_lt hsize
  refine ⟨pbFrame strHead strBody, ?_, fun m behind =>
    ⟨isPacketPbIn_frame m behind hsize hne, ?_, ?_, fun n hn h => ?_⟩⟩
  · rw [setPacketPb, hsum]
    exact if_neg (Int.not_lt.mpr hfit)
  · have := slice_head strHead strBody []
    rwa [append_nil] at this
  · exact slice_body strHead strBody
  · have hlen := wrap32_of_isPacketPbIn h
    rw [length_pbFrame] at hn
    rw [hsum, length_take, length_pbFrame, wrap32_of_lt (by omega)] at hlen
    omega

theorem pb_frame_round_trip_letters : ∃ pkg, setPacketPb [65] [66] 0 = some pkg ∧
    slice pkg 5 1 = [65] ∧ slice pkg 10 1 = [66] := by
  obtain ⟨pkg, hset, h⟩ := pb_frame_round_trip [65] [66] 0 (by simp) (by decide)
  exact ⟨pkg, hset, (h ⟨0, 0, false⟩ []).2.1, (h ⟨0, 0, false⟩ []).2.2.1⟩

/-- The head of a frame is parsed; one that is too long leaves the head of the packet
before. -/
theorem checkBasicPacket_frame (C : HeadCodec H) (o : Obj H) {behind : Bytes} {bUseSelfBuf : Bool}
    {d : Datagram} (hd : d = ⟨pbFrame strHead strBody, behind, bUseSelfBuf⟩)
    (hsize : strHead.length + strBody.length + 10 ≤ 8192) (hne : strHead ≠ []) :
    ∃ o', o.checkBasicPacket C d = some o' ∧ o'.pb.m_bIsPbReq = true ∧
      (o'.m_pbHead, o'.m_bParsePbHead) =
        if d.TooLong then (o.m_pbHead, o.m_bParsePbHead) else C.parseFromArray strHead := by
  subst hd
  have hlen := length_pbFrame strHead strBody
  have hpb := isPacketPbIn_frame o.resetPacketInfo.pb behind
    (Nat.lt_of_le_of_lt hsize (by decide)) hne
  rw [checkBasicPacket_of_pb hpb, Obj.checkBasicPacketPb]
  split
  case isTrue => exact ⟨_, rfl, rfl, rfl⟩
  case isFalse hfits =>
    obtain ⟨rest, hmem⟩ := memory_eq hfits o.m_sCommBuf
    have hends : ¬ ((pbFrame strHead strBody).length ≤ 10 ∨
        rd8 (pbFrame strHead strBody) 0 ≠ some spkgPb ∨
          rd8 (pbFrame strHead strBody) ((pbFrame strHead strBody).length - 1) ≠ some epkgPb) := by
      have hpos := length_pos_iff.mpr hne
      rintro (h | h | h)
      · omega
      · exact h rfl
      · exact h (rd8_frame_last strHead strBody)
    have hnonneg : ¬ (strHead.length : Int) ≤ 0 := by simpa using hne
    have hin : ¬ (pbFrame strHead strBody ++ rest).length < 5 + strHead.length := by
      rw [length_append]
      omega
    have hparse := slice_head strHead strBody rest
    rw [if_neg hends]
    simp only [Obj.keep, Obj.resetPacketInfo, hnonneg, Int.toNat_natCast, hmem, hin, hparse]
    exact ⟨_, rfl, rfl, rfl⟩

variable {C : HeadCodec H} {o : Obj H} {behind : Bytes} {bUseSelfBuf : Bool}

theorem ackToReqPb_eq_none_iff {iRetCode : Int} :
    o.ackToReqPb C iRetCode = some none ↔ ¬ o.Answers C := by
  unfold Obj.ackToReqPb Obj.ackPb
  by_cases hans : o.Answers C
  · split <;> simp [hans]
  · simp

/-- After the check of a protobuf packet the answer depends on the head alone. -/
theorem exchange_eq_none_iff {d : Datagram} {o' : Obj H} (hcheck : o.checkBasicPacket C d = some o')
    (hpb : o'.pb.m_bIsPbReq = true) (r : Resp) (iRetCode : Int) :
    exchange C o d r (.ackToReq iRetCode) = some none ↔ ¬ o'.Answers C := by
  have hack : exchange C o d r (.ackToReq iRetCode) =
      { o' with resp := r }.ackToReqPb C iRetCode := by
    rw [exchange, hcheck]
    exact if_pos hpb
  rw [hack]
  exact ackToReqPb_eq_none_iff

/-- A frame whose head carries the number is answered only by the head of the packet
before, when it is too long. -/
theorem ackToReq_frame {h : H} (hmagic : C.uint32_magic_response_num h = magicResponseNum)
    (hsize : (C.appendToString h).length + strBody.length + 10 ≤ 8192) (r : Resp) (iRetCode : Int) :
    exchange C o ⟨pbFrame (C.appendToString h) strBody, behind, bUseSelfBuf⟩ r (.ackToReq iRetCode) =
        some none ↔
      ¬ (Datagram.TooLong ⟨pbFrame (C.appendToString h) strBody, behind, bUseSelfBuf⟩ ∧
        o.Answers C) := by
  have hne : C.appendToString h ≠ [] := C.append_ne_nil h (by rw [hmagic]; decide)
  obtain ⟨o', hcheck, hpb, hkept⟩ := checkBasicPacket_frame C o rfl hsize hne
  rw [exchange_eq_none_iff hcheck hpb]
  split at hkept
  case isTrue htoo =>
    obtain ⟨hhead, hparse⟩ := Prod.mk.inj hkept
    simp [htoo, true_and, Obj.Answers, hhead, hparse]
  case isFalse htoo =>
    have hquiet : ¬ o'.Answers C := by
      rintro ⟨hok, hnum⟩
      rw [hok] at hkept
      exact hnum ((C.magic_parse h _ hkept.symm).trans hmagic)
    simp [hquiet, htoo]

end Frame

/-! ## Answers of answers -/

/-- What a server sends when it answers a datagram, in whatever state it was: another
server that receives it and calls `AckToReq` sends nothing, unless it copies packets
(`bUseSelfBuf`), this one does not fit, and the head of an earlier request that was
no answer is still in `m_pbHead`. -/
theorem no_ack_loop_iff (C : HeadCodec H) (o1 o2 : Obj H) (d : Datagram) (r1 r2 : Resp) (a : Ack)
    (e behind : Bytes) (bUseSelfBuf : Bool) (iRetCode : Int)
    (hsent : exchange C o1 d r1 a = some (some e)) :
    exchange C o2 ⟨e, behind, bUseSelfBuf⟩ r2 (.ackToReq iRetCode) = some none ↔
      ¬ (bUseSelfBuf = true ∧ maxUdpReqPacketSize < e.length ∧ o2.m_bParsePbHead = true ∧
        C.uint32_magic_response_num o2.m_pbHead ≠ magicResponseNum) := by
  obtain ⟨o', -, hack⟩ := Option.bind_eq_some_iff.mp hsent
  cases ack_reply hack with
  | packet r head hsize hmagic =>
    refine iff_of_true (ackToReq_packet C o2 hsize hmagic behind bUseSelfBuf r2 iRetCode) ?_
    rintro ⟨-, hlong, -⟩
    rw [length_packetBytes] at hlong
    omega
  | frame h strBody hmagic hsize =>
    rw [ackToReq_frame hmagic hsize]
    simp [Datagram.TooLong, Obj.Answers]

/-! ### Heads on the wire -/

/-- The numbers of `Command`; mirrors lib/my_proto/comm.proto:4-18 -/
def commands : List UInt32 := [501, 502, 504, 505, 506, 507, 508, 510, 511, 512, 513, 514]

/-- The value of a number field, 0 when there is none. -/
def num (k : Nat) (h : Message) : UInt32 :=
  match h k with
  | some (.num n) => n
  | _ => 0

/-- `PkgHead` as it is on the wire, with its fields 1 to 14; `en_cmd` and `uint32_seq`
are required. mirrors comm.proto:26-42 -/
def wireCodec : HeadCodec Message where
  parseFromArray b :=
    match Message.parse b with
    | some h => (h, commands.contains (num 1 h) && (h 2).isSome)
    | none => (fun _ => none, false)
  appendToString := Message.bytes (range' 1 14)
  uint32_magic_response_num := num 6
  set_uint32_result n h := h.put (3, .num n)
  set_uint32_magic_response_num n h := h.put (6, .num n)
  set_str_errmsg s h := h.put (4, .str s)
  magic_set _ _ := rfl
  magic_set_errmsg _ _ := rfl
  append_ne_nil h hne := by
    refine Message.bytes_ne_nil (k := 6) (by decide) ?_
    rw [Option.isSome_iff_ne_none]
    intro hnone
    exact hne (by rw [num, hnone])
  magic_parse h h' hparse := by
    split at hparse
    case h_1 m hm =>
      cases (Prod.mk.inj hparse).1
      rw [num, num, Message.parse_bytes hm (by decide)]
    case h_2 => cases (Prod.mk.inj hparse).2

/-- An object that has seen no packet. -/
def freshObj : Obj Message where
  m_pReqPkg := none
  m_pstReqHead := none
  resp := noResp
  m_sCommBuf := ⟨List.replicate maxUdpReqPacketSize 0, length_replicate⟩
  m_bIsResponse := false
  pb := ⟨0, 0, false⟩
  m_pbHead := fun _ => none
  m_bParsePbHead := false

/-- `SLOG_CLIENT_SEND_LOG` with the sequence number 1, without a body. -/
def request : Datagram := ⟨pbFrame [8, 245, 3, 16, 1] [], [], false⟩

/-- The head of the request with the result 0 and `MAGIC_RESPONSE_NUM`. -/
def answerHead : Bytes := [8, 245, 3, 16, 1, 24, 0, 48, 194, 152, 68]

def answer (strBody : Bytes) : Bytes := pbFrame answerHead strBody

theorem request_answered {strBody : Bytes} (h : strBody.length ≤ 4096) :
    exchange wireCodec freshObj request noResp (.ackToReqPbBody strBody 0) =
      some (some (answer strBody)) := by
  have hseen : ((freshObj.checkBasicPacket wireCodec request).map fun o => (decide (o.Answers wireCodec),
      wireCodec.appendToString (ackHead wireCodec 0 o.m_pbHead))) = some (true, answerHead) := by
    decide +kernel
  obtain ⟨o, hcheck, heq⟩ := Option.map_eq_some_iff.mp hseen
  obtain ⟨hans, hhead⟩ := Prod.mk.inj heq
  have hlen : answerHead.length = 11 := rfl
  rw [exchange, hcheck]
  refine (if_pos (of_decide_eq_true hans)).trans ?_
  rw [hhead]
  exact if_neg (by omega)

/-- A short answer reaches an object with the head of an earlier request. -/
theorem no_ack_loop_iff_short :
    exchange wireCodec { freshObj with m_bParsePbHead := true } ⟨answer [], [], true⟩ noResp (.ackToReq 3) =
      some none :=
  (no_ack_loop_iff wireCodec freshObj { freshObj with m_bParsePbHead := true } request noResp noResp
    (.ackToReqPbBody [] 0) (answer []) [] true 3 (request_answered (by decide))).mpr
      fun h => absurd h.2.1 (by decide)

/-- The first answer is longer than `m_sCommBuf`. An object that has checked the same
request, and has not answered it, answers the answer. -/
theorem stale_head_answers : ∃ o, freshObj.checkBasicPacket wireCodec request = some o ∧
    exchange wireCodec freshObj request noResp (.ackToReqPbBody (List.replicate 4096 0) 0) =
      some (some (answer (List.replicate 4096 0))) ∧
    exchange wireCodec o ⟨answer (List.replicate 4096 0), [], true⟩ noResp (.ackToReq 0) =
      some (some (answer [])) := by
  have h : ((freshObj.checkBasicPacket wireCodec request).bind fun o => exchange wireCodec o
      ⟨answer (List.replicate 4096 0), [], true⟩ noResp (.ackToReq 0)) = some (some (answer [])) := by
    decide +kernel
  obtain ⟨o, hcheck, hans⟩ := Option.bind_eq_some_iff.mp h
  exact ⟨o, hcheck, request_answered (Nat.le_of_eq length_replicate), hans⟩

end DesPwd.L3.AckLoop
