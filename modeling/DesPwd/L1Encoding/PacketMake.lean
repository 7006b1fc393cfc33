import DesPwd.L1Encoding.PacketForm

/-!
# Packets between agent and server

Each side builds its packets with a `MakePacket` of its own and checks those of
the other with a `CheckBasicPacket` of its own. The bytes that either builds
are a `Form` whose lengths are right (`Resp.form_sized`).

* `packet_round_trip`: what one side builds, within the size limits, the other
  accepts, and finds the command, the sequence number, the signature, the
  content and the TLVs in it.
* `packet_fits_not_made`: the room that is asked for is more than the packet.
-/
namespace DesPwd.L1.PacketMake

open Bytes BasicPacket PacketForm Option UInt16
open List hiding Vector

/-! ## What a packet is built from -/

/-- mirrors lib/mtagent_api_open/sv_struct.h:248-261 -/
structure ReqPkgHead where
  dwCmd : UInt32
  dwSeq : UInt32
  wPkgLen : UInt16
  wToPkgBody : UInt16
  bRetCode : UInt8
  bResendTimes : UInt8
  wVersion : UInt16
  dwRespMagicNum : UInt32
  sEchoBuf : Vector UInt8 32
  qwSessionId : UInt64
  sReserved : Vector UInt8 8

/-- What stands behind the lengths. -/
def ReqPkgHead.tail (h : ReqPkgHead) : Bytes :=
  h.bResendTimes :: (put16 h.wVersion ++ (put32 h.dwRespMagicNum ++ (h.sEchoBuf.toList ++
    (put64 h.qwSessionId ++ h.sReserved.toList))))

def ReqPkgHead.bytes (h : ReqPkgHead) : Bytes :=
  put32 h.dwCmd ++ (put32 h.dwSeq ++ (put16 h.wPkgLen ++ (put16 h.wToPkgBody ++
    (h.bRetCode :: h.tail))))

/-- mirrors `TSignature`, with its value -/
structure TSignature where
  bSigType : UInt8
  sSigValue : Bytes
  len_le : sSigValue.length ≤ maxSignatureLen

def TSignature.bytes (s : TSignature) : Bytes :=
  s.bSigType :: (put16 (ofNat s.sSigValue.length) ++ s.sSigValue)

/-- mirrors `TPkgBody`, with its TLVs -/
structure TPkgBody where
  stTlv : List WTlv
  num_lt : stTlv.length < 256

def TPkgBody.bytes (b : TPkgBody) : Bytes := UInt8.ofNat b.stTlv.length :: tlvBytes b.stTlv

/-- The parts that were set for the next packet: `m_pstRespSig`,
`m_pstRespCmdContent`, `m_pstRespBody`, with their lengths; `none` is a length
of 0. -/
structure Resp where
  sig : Option TSignature
  content : Bytes
  body : Option TPkgBody

namespace Resp

variable (r : Resp)

/-- `m_wRespSigLen` -/
def wRespSigLen : Nat := (r.sig.map fun s => s.bytes.length).getD 0

/-- `m_wRespBodyLen` -/
def wRespBodyLen : Nat := (r.body.map fun b => b.bytes.length).getD 0

/-- The signature in the packet, empty when none was set. -/
def sigBytes : Bytes := (r.sig.map TSignature.bytes).getD [0, 0, 0]

/-- The body in the packet, without TLVs when none was set. -/
def bodyBytes : Bytes := (r.body.map TPkgBody.bytes).getD [0]

/-- The room that `MakePacket` asks for. -/
def need : Nat :=
  2 + reqPkgHeadLen + tSignatureLen + tPkgBodyLen + r.wRespSigLen + r.content.length + r.wRespBodyLen

/-- `pdata - pBuf` at the body -/
def toPkgBody : Nat := 1 + reqPkgHeadLen + r.sigBytes.length + r.content.length

/-- `pdata - pBuf` at the end -/
def pkgLen : Nat := r.toPkgBody + r.bodyBytes.length + 1

/-- The bytes with a head, whose lengths are filled in here. -/
def packetBytes (head : ReqPkgHead) : Bytes :=
  UInt8.ofNat spkg :: ({ head with
        wToPkgBody := ofNat r.toPkgBody
        wPkgLen := ofNat r.pkgLen }.bytes ++
      (r.sigBytes ++ (r.content ++ (r.bodyBytes ++ [UInt8.ofNat epkg]))))

end Resp

/-! ## MakePacket -/

/-- The bytes in the buffer; `none` when it is too small, `MakePacket` then
returns 0. mirrors slog_mtreport_client/mtreport_basic_pkg.cpp:241-289 -/
def agentMakePacket (head : ReqPkgHead) (r : Resp) (iBufLen : Int) (iRetCode : UInt8) :
    Option Bytes :=
  if iBufLen < r.need then none else some (r.packetBytes { head with bRetCode := iRetCode })

/-- mirrors lib/mtagent_api_open/basic_packet.h:52 -/
def magicResponseNum : UInt32 := 1117250

inductive Made where
  | tooSmall
  | noHead
  | made (b : Bytes)
  deriving DecidableEq

/-- Without a buffer, or with a length of 0, the packet is built in `m_sCommBuf`. -/
def serverBufLen : Option Int → Int
  | none => maxUdpReqPacketSize
  | some n => if n = 0 then maxUdpReqPacketSize else n

/-- A head that was not set is that of the request in `m_pReqPkg`.
mirrors lib/mtagent_api_open/basic_packet.cpp:506-568 -/
def serverMakePacket (pstReqHead pReqPkg : Option ReqPkgHead) (bIsResponse : Bool) (r : Resp)
    (piBufLen : Option Int) (iRetCode : UInt8) : Made :=
  if serverBufLen piBufLen < r.need then .tooSmall
  else match pstReqHead.or pReqPkg with
    | none => .noHead
    | some head =>
      let head := { head with bRetCode := iRetCode }
      .made (r.packetBytes
        (if bIsResponse then { head with dwRespMagicNum := magicResponseNum } else head))

/-! ## The TLVs one by one -/

/-- `k` steps of the loop -/
def skipTlvs : Nat → Bytes → Option Bytes
  | 0, b => some b
  | k + 1, b => do
    let wLen ← rd16 b 2
    skipTlvs k (b.drop (wLen + twTlvLen))

/-- The TLV where it stands, and the number to go on with.
mirrors slog_mtreport_client/sv_struct.cpp:54-69 -/
def getWTlvType2List (body : Bytes) (iStartNum : Int) : Option (Option (Bytes × Int)) := do
  let bTlvNum ← rd8 body 0
  if iStartNum ≥ bTlvNum ∨ iStartNum < 0 then pure none
  else
    let b ← skipTlvs iStartNum.toNat (body.drop tPkgBodyLen)
    pure (some (b, iStartNum + 1))

theorem skipTlvs_tlvBytes {k : Nat} {ts : List WTlv} (hk : k ≤ ts.length) :
    skipTlvs k (tlvBytes ts) = some (tlvBytes (ts.drop k)) := by
  induction k generalizing ts with
  | zero => rfl
  | succ k ih =>
    cases ts with
    | nil => simp at hk
    | cons t ts =>
      have hcons := tlvBytes_cons t ts []
      simp only [append_nil] at hcons
      rw [hcons, skipTlvs, t.rd16_len]
      simp only [bind_eq_bind, bind_some, t.drop_next]
      exact ih (by simpa using hk)

/-! ## The form of what is built -/

namespace ReqPkgHead

variable (h : ReqPkgHead)

theorem length_bytes : h.bytes.length = reqPkgHeadLen := by
  simp [bytes, tail, reqPkgHeadLen]

theorem rd32_cmd : rd32 h.bytes 0 = some h.dwCmd.toNat := rd32_put32 _ _

theorem rd32_seq : rd32 h.bytes 4 = some h.dwSeq.toNat :=
  (rd32_append_right (put32 h.dwCmd) _ 0).trans (rd32_put32 _ _)

theorem rd16_pkgLen : rd16 h.bytes 8 = some h.wPkgLen.toNat :=
  (rd16_append_right (put32 h.dwCmd) _ 4).trans
    ((rd16_append_right (put32 h.dwSeq) _ 0).trans (rd16_put16 _ _))

theorem rd16_toPkgBody : rd16 h.bytes 10 = some h.wToPkgBody.toNat :=
  (rd16_append_right (put32 h.dwCmd) _ 6).trans ((rd16_append_right (put32 h.dwSeq) _ 2).trans
      ((rd16_append_right (put16 h.wPkgLen) _ 0).trans (rd16_put16 _ _)))

theorem rd32_magic : rd32 h.bytes 16 = some h.dwRespMagicNum.toNat :=
  (rd32_append_right (put32 h.dwCmd) _ 12).trans ((rd32_append_right (put32 h.dwSeq) _ 8).trans
      ((rd32_append_right (put16 h.wPkgLen) _ 6).trans
        ((rd32_append_right (put16 h.wToPkgBody) _ 4).trans
          ((rd32_append_right [h.bRetCode, h.bResendTimes] _ 2).trans
            ((rd32_append_right (put16 h.wVersion) _ 0).trans (rd32_put32 _ _))))))

theorem rd8_retCode : rd8 h.bytes 12 = some h.bRetCode.toNat := rfl

end ReqPkgHead

namespace Resp

variable (r : Resp)

def bSigType : UInt8 := (r.sig.map TSignature.bSigType).getD 0

def sSigValue : Bytes := (r.sig.map TSignature.sSigValue).getD []

def tlvs : List WTlv := (r.body.map TPkgBody.stTlv).getD []

theorem length_sSigValue : r.sSigValue.length ≤ maxSignatureLen := by
  unfold sSigValue
  cases r.sig with
  | none => exact Nat.zero_le _
  | some s => exact s.len_le

theorem length_tlvs : r.tlvs.length < 256 := by
  unfold tlvs
  cases r.body with
  | none => decide
  | some b => exact b.num_lt

theorem sigBytes_eq : r.sigBytes =
    r.bSigType :: (put16 (ofNat r.sSigValue.length) ++ r.sSigValue) := by
  unfold sigBytes bSigType sSigValue
  cases r.sig <;> rfl

theorem bodyBytes_eq : r.bodyBytes = UInt8.ofNat r.tlvs.length :: (tlvBytes r.tlvs ++ []) := by
  unfold bodyBytes tlvs
  cases r.body with
  | none => rfl
  | some b => simp [TPkgBody.bytes]

theorem pkgLen_le_need : r.pkgLen ≤ r.need := by
  have hsig : r.sigBytes.length ≤ tSignatureLen + r.wRespSigLen := by
    unfold sigBytes wRespSigLen
    cases r.sig <;> simp [tSignatureLen]
  have hbody : r.bodyBytes.length ≤ tPkgBodyLen + r.wRespBodyLen := by
    unfold bodyBytes wRespBodyLen
    cases r.body <;> simp [tPkgBodyLen]
  rw [pkgLen, toPkgBody, need]
  omega

/-- The packet as a form. -/
def form (head : ReqPkgHead) : Form where
  head :=
    { head with
      wToPkgBody := ofNat r.toPkgBody
      wPkgLen := ofNat r.pkgLen }.bytes
  head_len := ReqPkgHead.length_bytes _
  bSigType := r.bSigType
  sSigValue := r.sSigValue
  sig_lt := by
    have := r.length_sSigValue
    simp only [maxSignatureLen] at this
    omega
  content := r.content
  tlvs := r.tlvs
  tlvs_lt := r.length_tlvs
  rest := []

theorem packetBytes_eq (head : ReqPkgHead) : r.packetBytes head = (r.form head).bytes := by
  rw [packetBytes, sigBytes_eq, bodyBytes_eq]
  rfl

theorem form_toBody (head : ReqPkgHead) : (r.form head).toBody = r.toPkgBody := by
  rw [toPkgBody, sigBytes_eq]
  simp [Form.toBody, Form.basicLen, form, length_cons, length_append, length_put16,
    tSignatureLen]
  omega

theorem form_length (head : ReqPkgHead) : (r.form head).bytes.length = r.pkgLen := by
  rw [Form.length_bytes, form_toBody, pkgLen, bodyBytes_eq]
  rfl

theorem form_sized {wSigMax : Nat} (hsig : maxSignatureLen ≤ wSigMax)
    (hsize : r.pkgLen ≤ maxUdpReqPacketSize) (head : ReqPkgHead) : (r.form head).Sized wSigMax := by
  have hlt : r.pkgLen < 65536 := by
    simp only [maxUdpReqPacketSize] at hsize
    omega
  have hto : r.toPkgBody < r.pkgLen := by
    rw [pkgLen]
    omega
  have hpkg : (ofNat r.pkgLen).toNat = r.pkgLen := by
    rw [toNat_ofNat', Nat.mod_eq_of_lt hlt]
  have hbody : (ofNat r.toPkgBody).toNat = r.toPkgBody := by
    rw [toNat_ofNat', Nat.mod_eq_of_lt (by omega)]
  exact
    { pkgLen := by
        rw [form_length, form, ReqPkgHead.rd16_pkgLen, hpkg]
      toBody := by
        rw [form_toBody, form, ReqPkgHead.rd16_toPkgBody, hbody]
      sigLen := Nat.le_trans r.length_sSigValue hsig
      len := by rw [form_length]; exact hsize }

theorem form_retCode (head : ReqPkgHead) : (r.form head).bRetCode = head.bRetCode.toNat := by
  rw [Form.bRetCode, form, ReqPkgHead.rd8_retCode, getD_some]

end Resp

/-! ## The round trip -/

/-- The packet has the parts it was built from. -/
structure Recovers (head : ReqPkgHead) (r : Resp) (p : Packet) : Prop where
  cmd : p.dwCmd = head.dwCmd.toNat
  seq : p.dwSeq = head.dwSeq.toNat
  sigType : p.bSigType = r.bSigType.toNat
  sig : p.sSigValue = r.sSigValue
  contentLen : p.wCmdContentLen = r.content.length
  content : p.content.take p.wCmdContentLen = r.content
  tlv : ∀ k (hk : k < r.tlvs.length), ∃ rest,
    getWTlvType2List p.body k = some (some (r.tlvs[k].bytes ++ rest, (k : Int) + 1))
  tlvEnd : getWTlvType2List p.body r.tlvs.length = some none

theorem getWTlvType2List_body (head : ReqPkgHead) (r : Resp) {k : Nat} (hk : k < r.tlvs.length) :
    ∃ rest, getWTlvType2List (r.form head).body k = some (some (r.tlvs[k].bytes ++ rest, (k : Int) + 1)) := by
  have hnum : rd8 (r.form head).body 0 = some r.tlvs.length := (r.form head).rd8_body
  have hdrop : (r.form head).body.drop tPkgBodyLen = tlvBytes r.tlvs := append_nil _
  refine ⟨tlvBytes (r.tlvs.drop (k + 1)), ?_⟩
  rw [getWTlvType2List, hnum]
  simp only [bind_eq_bind, bind_some, hdrop]
  rw [if_neg (by omega), Int.toNat_natCast, skipTlvs_tlvBytes (Nat.le_of_lt hk),
    drop_eq_getElem_cons hk]
  rfl

theorem getWTlvType2List_end (head : ReqPkgHead) (r : Resp) :
    getWTlvType2List (r.form head).body r.tlvs.length = some none := by
  have hnum : rd8 (r.form head).body 0 = some r.tlvs.length := (r.form head).rd8_body
  rw [getWTlvType2List, hnum]
  simp

theorem recovers_form (head head' : ReqPkgHead) (r : Resp) (hcmd : head'.dwCmd = head.dwCmd)
    (hseq : head'.dwSeq = head.dwSeq) : Recovers head r (r.form head').packet where
  cmd := by rw [Form.packet, Resp.form, ReqPkgHead.rd32_cmd, getD_some, hcmd]
  seq := by rw [Form.packet, Resp.form, ReqPkgHead.rd32_seq, getD_some, hseq]
  sigType := rfl
  sig := rfl
  contentLen := rfl
  content := take_left
  tlv _ hk := getWTlvType2List_body head' r hk
  tlvEnd := getWTlvType2List_end head' r

/-- For all parts whose packet keeps the limit of both sides, and a buffer with the room that
`MakePacket` asks for: each side builds a packet that the other accepts and finds the parts
in, the server wherever it has the head from and whatever buffer it uses. -/
theorem packet_round_trip (head : ReqPkgHead) (r : Resp) (hsize : r.pkgLen ≤ maxUdpReqPacketSize) :
    (∀ iBufLen : Int, r.need ≤ iBufLen → ∃ b, agentMakePacket head r iBufLen 0 = some b ∧
      b.length = r.pkgLen ∧ ∃ p, checkBasicPacket b = some (.ok p) ∧ Recovers head r p) ∧
    (∀ pstReqHead pReqPkg bIsResponse piBufLen, pstReqHead.or pReqPkg = some head →
      r.need ≤ serverBufLen piBufLen →
      ∃ b, serverMakePacket pstReqHead pReqPkg bIsResponse r piBufLen 0 = .made b ∧
        b.length = r.pkgLen ∧
        ∃ p, agentCheckBasicPacket b = some (.ok p) ∧ p.bRetCode = 0 ∧ Recovers head r p.toPacket) := by
  refine ⟨fun iBufLen hroom => ⟨_, if_neg (by omega), ?_⟩,
    fun pst preq bIsResponse piBufLen hhead hroom => ?_⟩
  · rw [r.packetBytes_eq]
    exact ⟨r.form_length _, _, (r.form_sized (Nat.le_refl _) hsize _).checkBasicPacket
      (r.form_retCode _), recovers_form _ _ r rfl rfl⟩
  · unfold serverMakePacket
    rw [hhead, if_neg (by omega)]
    refine ⟨_, rfl, ?_⟩
    rw [r.packetBytes_eq]
    refine ⟨r.form_length _, _, (r.form_sized (by decide) hsize _).agentCheckBasicPacket ?_,
      rfl, recovers_form _ _ r ?_ ?_⟩
    · split <;> rfl
    · split <;> rfl
    · split <;> rfl

/-- A request of command 7 with a signature of two bytes, three bytes of
content and one TLV. -/
def sampleHead : ReqPkgHead :=
  ⟨7, 42, 0, 0, 0, 0, 1, 0, Vector.replicate 32 0, 0, Vector.replicate 8 0⟩

def sampleResp : Resp :=
  ⟨some ⟨101, [1, 2], by decide⟩, [3, 4, 5], some ⟨[⟨204, [6], by decide⟩], by decide⟩⟩

theorem packet_round_trip_sample : sampleResp.pkgLen ≤ maxUdpReqPacketSize ∧
    (∃ b, agentMakePacket sampleHead sampleResp 88 0 = some b ∧
      ∃ p, checkBasicPacket b = some (.ok p) ∧ Recovers sampleHead sampleResp p) ∧
    ∃ b, serverMakePacket none (some sampleHead) true sampleResp none 0 = .made b ∧
      ∃ p, agentCheckBasicPacket b = some (.ok p) ∧ Recovers sampleHead sampleResp p.toPacket := by
  have hsize : sampleResp.pkgLen ≤ maxUdpReqPacketSize := by decide
  obtain ⟨hagent, hserver⟩ := packet_round_trip sampleHead sampleResp hsize
  obtain ⟨b, hb, -, hp⟩ := hagent 88 (by decide)
  obtain ⟨b', hb', -, p, hp', -, hr⟩ := hserver none (some sampleHead) true none rfl (by decide)
  exact ⟨hsize, ⟨b, hb, hp⟩, b', hb', p, hp', hr⟩

/-- The packet has 84 bytes; a buffer of 84 is refused. -/
theorem packet_fits_not_made : sampleResp.pkgLen = 84 ∧ agentMakePacket sampleHead sampleResp 84 0 = none ∧
    serverMakePacket (some sampleHead) none true sampleResp (some 84) 0 = .tooSmall := by
  decide

end DesPwd.L1.PacketMake
