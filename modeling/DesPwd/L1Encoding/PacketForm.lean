import DesPwd.L1Encoding.BasicPacket

/-!
# The form of an accepted packet

Agent and server check a packet with two functions of one shape, `checkParts`:
the server limits the length of the signature and refuses a packet with an
error code, the agent does neither and ends the text of the error with a zero.
Both take every length from the packet.

* `Form`: the ranges of a packet, one after the other, with the TLVs of its
  body. `checkParts_ok_iff` says that these are the packets that pass.
* `findTlv_tlvBytes`: the search for a TLV reads nothing but the TLVs.
* `server_packet_form`, `agent_packet_form`: the form of what either accepts.
* `checks_agree`: the packets that both accept.
-/
namespace DesPwd.L1.PacketForm

open Bytes BasicPacket List Option UInt8

/-! ## TLVs -/

/-- mirrors `TWTlv`, with its value -/
structure WTlv where
  wType : UInt16
  sValue : Bytes
  len_lt : sValue.length < 65536
  deriving DecidableEq

namespace WTlv

def wLen (t : WTlv) : UInt16 := UInt16.ofNat t.sValue.length

def bytes (t : WTlv) : Bytes := put16 t.wType ++ (put16 t.wLen ++ t.sValue)

variable (t : WTlv)
include t

theorem toNat_wLen : t.wLen.toNat = t.sValue.length := by
  have := t.len_lt
  rw [wLen, UInt16.toNat_ofNat']
  omega

@[simp] theorem length_bytes : t.bytes.length = t.sValue.length + twTlvLen := by
  simp [bytes, twTlvLen]
  omega

theorem rd16_type (rest : Bytes) : rd16 (t.bytes ++ rest) 0 = some t.wType.toNat := by
  rw [bytes, append_assoc, rd16_put16]

theorem rd16_len (rest : Bytes) : rd16 (t.bytes ++ rest) 2 = some t.sValue.length := by
  have h := rd16_append_right (put16 t.wType) (put16 t.wLen ++ (t.sValue ++ rest)) 0
  rw [rd16_put16, toNat_wLen] at h
  exact h

theorem drop_next (rest : Bytes) : (t.bytes ++ rest).drop (t.sValue.length + twTlvLen) = rest := by
  rw [← length_bytes, drop_left]

theorem drop_value (rest : Bytes) : (t.bytes ++ rest).drop twTlvLen = t.sValue ++ rest := by
  rfl

end WTlv

def tlvBytes (ts : List WTlv) : Bytes := ts.flatMap WTlv.bytes

theorem tlvBytes_cons (t : WTlv) (ts : List WTlv) (rest : Bytes) :
    tlvBytes (t :: ts) ++ rest = t.bytes ++ (tlvBytes ts ++ rest) := by
  simp [tlvBytes]

theorem length_tlvBytes_cons (t : WTlv) (ts : List WTlv) :
    (tlvBytes (t :: ts)).length = t.sValue.length + twTlvLen + (tlvBytes ts).length := by
  simp [tlvBytes]

theorem checkTlvs_tlvBytes (ts : List WTlv) (rest : Bytes) :
    checkTlvs ts.length (tlvBytes ts ++ rest) = some true := by
  induction ts with
  | nil => rfl
  | cons t ts ih =>
    rw [tlvBytes_cons, length_cons, checkTlvs, if_neg (by simp; omega), t.rd16_len]
    simp only [bind_eq_bind, bind_some, t.drop_next, ih]
    rw [if_neg (by simp)]

variable {b buf : Bytes} {wSigMax : Nat} {p : Packet}

/-- What stands at the front when the first TLV has passed the check. -/
theorem exists_tlv {wLen : Nat} (h : rd16 b 2 = some wLen) (hlen : wLen + twTlvLen ≤ b.length) :
    ∃ t : WTlv, t.sValue.length = wLen ∧ b = t.bytes ++ b.drop (wLen + twTlvLen) := by
  obtain ⟨hslice, hlt⟩ := slice_of_rd16 h
  obtain ⟨ty, hty⟩ := rd16_isSome (b := b) (i := 0) (by simp only [twTlvLen] at hlen; omega)
  have hvalue : (slice b 4 wLen).length = wLen := by
    simp only [slice, length_take, length_drop, twTlvLen] at hlen ⊢
    omega
  refine ⟨⟨UInt16.ofNat ty, slice b 4 wLen, by omega⟩, hvalue, ?_⟩
  calc b = slice b 0 2 ++ (slice b 2 2 ++ (slice b 4 wLen ++ b.drop (4 + wLen))) := by
        rw [← drop_eq_slice_append b 4 wLen, ← drop_eq_slice_append b 2 2,
          ← drop_eq_slice_append b 0 2, drop_zero]
    _ = _ := by
        rw [(slice_of_rd16 hty).1, hslice]
        simp [WTlv.bytes, WTlv.wLen, hvalue, append_assoc, twTlvLen, Nat.add_comm]

theorem checkTlvs_eq_true {n : Nat} (h : checkTlvs n b = some true) :
    ∃ ts rest, ts.length = n ∧ b = tlvBytes ts ++ rest := by
  induction n generalizing b with
  | zero => exact ⟨[], b, rfl, rfl⟩
  | succ n ih =>
    rw [checkTlvs] at h
    split at h
    · cases h
    simp only [bind_eq_bind, bind_eq_some_iff] at h
    obtain ⟨wLen, hlen, h⟩ := h
    split at h
    · cases h
    obtain ⟨t, ht, hb⟩ := exists_tlv hlen (by omega)
    obtain ⟨ts, rest, hts, hrest⟩ := ih h
    refine ⟨t :: ts, rest, by simp [hts], ?_⟩
    rw [tlvBytes_cons, ← hrest]
    exact hb

/-- The first TLV of a type, where it stands. -/
def firstTlv (wType : Nat) (ts : List WTlv) (rest : Bytes) : Option Tlv :=
  match ts.dropWhile fun t => t.wType.toNat ≠ wType with
  | [] => none
  | t :: us => some ⟨t.sValue.length, t.sValue ++ (tlvBytes us ++ rest)⟩

/-- The search takes the TLVs one by one; `rest` is anything, also nothing. -/
theorem findTlv_tlvBytes (wType : Nat) (ts : List WTlv) (rest : Bytes) :
    findTlv wType ts.length (tlvBytes ts ++ rest) = some (firstTlv wType ts rest) := by
  induction ts with
  | nil => rfl
  | cons t ts ih =>
    rw [tlvBytes_cons, length_cons, findTlv, t.rd16_type, t.rd16_len]
    simp only [bind_eq_bind, bind_some, t.drop_next, t.drop_value, ih]
    by_cases h : t.wType.toNat = wType
    · simp [h, firstTlv]
    · simp [h, firstTlv]

/-! ## The ranges of a packet -/

/-- A packet as its ranges; the body may go on behind its last TLV. -/
structure Form where
  head : Bytes
  head_len : head.length = reqPkgHeadLen
  bSigType : UInt8
  sSigValue : Bytes
  sig_lt : sSigValue.length < 65536
  content : Bytes
  tlvs : List WTlv
  tlvs_lt : tlvs.length < 256
  rest : Bytes

namespace Form

def sig (f : Form) : Bytes := f.bSigType :: (put16 (UInt16.ofNat f.sSigValue.length) ++ f.sSigValue)

def body (f : Form) : Bytes := ofNat f.tlvs.length :: (tlvBytes f.tlvs ++ f.rest)

def bytes (f : Form) : Bytes :=
  ofNat spkg :: (f.head ++ (f.sig ++ (f.content ++ (f.body ++ [ofNat epkg]))))

/-- The offset of the content. -/
def basicLen (f : Form) : Nat := 1 + reqPkgHeadLen + tSignatureLen + f.sSigValue.length

/-- The offset of the body. -/
def toBody (f : Form) : Nat := f.basicLen + f.content.length

def bRetCode (f : Form) : Nat := (rd8 f.head 12).getD 0

/-- What a check returns for the packet. -/
def packet (f : Form) : Packet where
  dwCmd := (rd32 f.head 0).getD 0
  dwSeq := (rd32 f.head 4).getD 0
  wVersion := (rd16 f.head 14).getD 0
  bSigType := f.bSigType.toNat
  sSigValue := f.sSigValue
  content := f.content ++ (f.body ++ [ofNat epkg])
  wCmdContentLen := f.content.length
  body := f.body

@[simp] theorem length_sig (f : Form) : f.sig.length = tSignatureLen + f.sSigValue.length := by
  simp [sig, tSignatureLen]
  omega

theorem length_bytes (f : Form) : f.bytes.length = f.toBody + f.body.length + 1 := by
  simp [bytes, toBody, basicLen, length_cons, length_append, f.head_len, length_sig,
    length_nil]
  omega

/-- The lengths that the packet gives of itself are those of its ranges. -/
structure Sized (wSigMax : Nat) (f : Form) : Prop where
  pkgLen : rd16 f.head 8 = some f.bytes.length
  toBody : rd16 f.head 10 = some f.toBody
  sigLen : f.sSigValue.length ≤ wSigMax
  len : f.bytes.length ≤ maxUdpReqPacketSize

end Form

/-! ## The check of agent and server -/

theorem checkBasicPacket_eq (buf : Bytes) : checkBasicPacket buf = (isPacketPb buf).bind fun pb =>
    if pb then some .pb else (checkParts maxSignatureLen buf).map Checked.ofParts := by
  rw [checkBasicPacket]
  congr 1

/-- What the reads of a packet that passes have found. -/
structure Facts (wSigMax : Nat) (buf : Bytes) (wToPkgBody wSigLen : Nat) (p : Packet)
    (bRetCode : Nat) : Prop where
  long : 2 + reqPkgHeadLen < buf.length
  pkgLen : rd16 buf 9 = some buf.length
  short : buf.length ≤ maxUdpReqPacketSize
  first : rd8 buf 0 = some spkg
  last : rd8 buf (buf.length - 1) = some epkg
  cmd : rd32 buf 1 = some p.dwCmd
  seq : rd32 buf 5 = some p.dwSeq
  toBody : rd16 buf 11 = some wToPkgBody
  retCode : rd8 buf 13 = some bRetCode
  version : rd16 buf 15 = some p.wVersion
  sigType : rd8 buf (1 + reqPkgHeadLen) = some p.bSigType
  sigLen : rd16 buf (2 + reqPkgHeadLen) = some wSigLen
  sigIn : tSignatureLen + wSigLen ≤ buf.length - (2 + reqPkgHeadLen)
  sigMax : wSigLen ≤ wSigMax
  basicLen : 1 + reqPkgHeadLen + tSignatureLen + wSigLen ≤ wToPkgBody
  bodyIn : wToPkgBody + tPkgBodyLen ≤ buf.length
  tlvs : checkPkgBody p.body = some true
  sig : p.sSigValue = slice buf (1 + reqPkgHeadLen + tSignatureLen) wSigLen
  content : p.content = buf.drop (1 + reqPkgHeadLen + tSignatureLen + wSigLen)
  contentLen : p.wCmdContentLen = wToPkgBody - (1 + reqPkgHeadLen + tSignatureLen + wSigLen)
  body : p.body = slice buf wToPkgBody (buf.length - wToPkgBody - 1)

theorem of_guard {α β : Type} {c : Prop} [Decidable c] {e : Err} {m m' : β}
    {x : Option (β × Except Err α)} {a : α}
    (h : (if c then some (m, .error e) else x) = some (m', .ok a)) : ¬ c ∧ x = some (m', .ok a) := by
  by_cases hc : c
  · rw [if_pos hc] at h
    cases h
  · rw [if_neg hc] at h
    exact ⟨hc, h⟩

theorem checkParts_eq_ok {bRetCode : Nat} (h : checkParts wSigMax buf = some (.ok (p, bRetCode))) :
    ∃ wToPkgBody wSigLen, Facts wSigMax buf wToPkgBody wSigLen p bRetCode := by
  obtain ⟨⟨m, _⟩, h, ⟨⟩⟩ := map_eq_some_iff.mp h
  simp only [checkSteps, bind_eq_bind] at h
  obtain ⟨hlong, h⟩ := of_guard h
  simp only [bind_eq_some_iff] at h
  obtain ⟨wPkgLen, hpkg, first, hfirst, last, hlast, h⟩ := h
  obtain ⟨hhead, h⟩ := of_guard h
  simp only [bind_eq_some_iff] at h
  obtain ⟨dwCmd, hcmd, dwSeq, hseq, wTo, hto, ret, hret, ver, hver, sess, -, h⟩ := h
  obtain ⟨hrem, h⟩ := of_guard h
  simp only [bind_eq_some_iff] at h
  obtain ⟨sigType, hst, wSigLen, hsl, h⟩ := h
  obtain ⟨hsig, h⟩ := of_guard h
  obtain ⟨hbody, h⟩ := of_guard h
  simp only [bind_eq_some_iff] at h
  obtain ⟨ok, hok, h⟩ := h
  cases ok
  · cases h
  cases h
  simp only [not_or, Nat.not_lt, Decidable.not_not] at hhead hsig hbody
  obtain ⟨rfl, hmax, rfl, rfl⟩ := hhead
  exact ⟨wTo, wSigLen, by omega, hpkg, hmax, hfirst, hlast, hcmd, hseq, hto, hret, hver, hst, hsl,
    hsig.1, hsig.2, hbody.1, hbody.2, hok, rfl, rfl, rfl, rfl⟩

theorem Facts.checkParts {wToPkgBody wSigLen : Nat}
    {bRetCode : Nat} (h : Facts wSigMax buf wToPkgBody wSigLen p bRetCode) :
    checkParts wSigMax buf = some (.ok (p, bRetCode)) := by
  have htlvs := h.tlvs
  rw [h.body] at htlvs
  have hlong := h.long
  have hsig := h.sigIn
  have hshort := h.short
  have hmax := h.sigMax
  have hbasic := h.basicLen
  have hin := h.bodyIn
  obtain ⟨sess, hsess⟩ := rd64_isSome (b := buf) (i := 53) (by simp only [reqPkgHeadLen] at hlong; omega)
  simp only [BasicPacket.checkParts, checkSteps, bind_eq_bind, Option.pure_def, h.pkgLen, h.first,
    h.last, h.cmd, h.seq, h.toBody, h.retCode, h.version, hsess, h.sigType, h.sigLen, bind_some, htlvs]
  rw [if_neg (by omega), if_neg (by omega), if_neg (by omega), if_neg (by omega), if_neg (by omega),
    if_neg (by decide), ← h.sig, ← h.content, ← h.contentLen, ← h.body]
  rfl

/-! ## The packets that pass -/

theorem checkPkgBody_cons (n : UInt8) (b : Bytes) : checkPkgBody (n :: b) = checkTlvs n.toNat b := by
  simp [checkPkgBody, tPkgBodyLen, rd8]

theorem checkPkgBody_eq_true (h : checkPkgBody b = some true) :
    ∃ ts rest, ts.length < 256 ∧ b = ofNat ts.length :: (tlvBytes ts ++ rest) := by
  cases b with
  | nil => cases h
  | cons n b =>
    obtain ⟨ts, rest, hlen, rfl⟩ := checkTlvs_eq_true h
    refine ⟨ts, rest, by rw [hlen]; exact n.toNat_lt, ?_⟩
    rw [hlen, UInt8.ofNat_toNat]

namespace Form

variable (f : Form)

theorem toNat_tlvNum : (ofNat f.tlvs.length).toNat = f.tlvs.length := by
  have := f.tlvs_lt
  rw [toNat_ofNat']
  omega

theorem rd8_body : rd8 f.body 0 = some f.tlvs.length := by
  rw [body, rd8, getElem?_cons_zero, map_some, toNat_tlvNum]

theorem checkPkgBody_body : checkPkgBody f.body = some true := by
  rw [body, checkPkgBody_cons, toNat_tlvNum, checkTlvs_tlvBytes]

/-! A read of the head is a read of the packet one further on. -/

variable {i : Nat}

theorem rd8_head (hi : i < reqPkgHeadLen) : rd8 f.bytes (1 + i) = rd8 f.head i := by
  have h := rd8_append_right [ofNat spkg]
    (f.head ++ (f.sig ++ (f.content ++ (f.body ++ [ofNat epkg])))) i
  exact h.trans (rd8_append (by rw [f.head_len]; exact hi))

theorem rd16_head (hi : i + 1 < reqPkgHeadLen) : rd16 f.bytes (1 + i) = rd16 f.head i := by
  rw [rd16, rd16, f.rd8_head (by omega), Nat.add_assoc, f.rd8_head hi]

theorem rd32_head (hi : i + 3 < reqPkgHeadLen) : rd32 f.bytes (1 + i) = rd32 f.head i := by
  rw [rd32, rd32, f.rd16_head (by omega), Nat.add_assoc, f.rd16_head hi]

/-- The packet, cut before and in the signature. -/
theorem bytes_eq_sig : ∃ tail, f.bytes = (ofNat spkg :: f.head) ++
    ([f.bSigType] ++ (put16 (UInt16.ofNat f.sSigValue.length) ++ (f.sSigValue ++ tail))) :=
  ⟨f.content ++ (f.body ++ [ofNat epkg]), by simp [bytes, sig]⟩

theorem length_front : (ofNat spkg :: f.head).length = 1 + reqPkgHeadLen := by
  rw [length_cons, f.head_len, Nat.add_comm]

theorem bytes_eq_content : f.bytes = (ofNat spkg :: (f.head ++ f.sig)) ++
    (f.content ++ (f.body ++ [ofNat epkg])) := by
  simp [bytes]

theorem length_basic : (ofNat spkg :: (f.head ++ f.sig)).length = f.basicLen := by
  simp only [length_cons, length_append, f.head_len, length_sig, basicLen]
  omega

theorem drop_basicLen : f.bytes.drop f.basicLen = f.content ++ (f.body ++ [ofNat epkg]) := by
  rw [bytes_eq_content, ← f.length_basic, drop_left]

theorem slice_body : slice f.bytes f.toBody (f.bytes.length - f.toBody - 1) = f.body := by
  have hlen : f.bytes.length - f.toBody - 1 = f.body.length := by
    rw [f.length_bytes]
    omega
  rw [slice, toBody, ← drop_drop, f.drop_basicLen, drop_left, ← toBody, hlen, take_left]

theorem rd8_last : rd8 f.bytes (f.bytes.length - 1) = some epkg := by
  have hcut : f.bytes = (ofNat spkg :: (f.head ++ (f.sig ++ (f.content ++ f.body)))) ++
      [ofNat epkg] := by
    simp [bytes]
  have h := rd8_append_right
    (ofNat spkg :: (f.head ++ (f.sig ++ (f.content ++ f.body)))) [ofNat epkg] 0
  rw [← hcut] at h
  rw [hcut, length_append, length_singleton, ← hcut]
  exact h

theorem Sized.facts {f : Form} {wSigMax : Nat} (h : f.Sized wSigMax) :
    Facts wSigMax f.bytes f.toBody f.sSigValue.length f.packet f.bRetCode := by
  have hlt := f.sig_lt
  have hlen := f.length_bytes
  have hbasic : f.toBody = 1 + reqPkgHeadLen + tSignatureLen + f.sSigValue.length +
    f.content.length := rfl
  have hhead := f.head_len
  obtain ⟨cmd, hcmd⟩ := rd32_isSome (i := 0) (by rw [hhead]; decide)
  obtain ⟨seq, hseq⟩ := rd32_isSome (i := 4) (by rw [hhead]; decide)
  obtain ⟨ret, hret⟩ := rd8_isSome (i := 12) (by rw [hhead]; decide)
  obtain ⟨ver, hver⟩ := rd16_isSome (i := 14) (by rw [hhead]; decide)
  have hsl : (UInt16.ofNat f.sSigValue.length).toNat = f.sSigValue.length := by
    rw [UInt16.toNat_ofNat']
    omega
  obtain ⟨tail, htail⟩ := f.bytes_eq_sig
  have hsig8 := rd8_append_right (ofNat spkg :: f.head) ([f.bSigType] ++
    (put16 (UInt16.ofNat f.sSigValue.length) ++ (f.sSigValue ++ tail))) 0
  have hsig16 := rd16_append_right (ofNat spkg :: f.head) ([f.bSigType] ++
    (put16 (UInt16.ofNat f.sSigValue.length) ++ (f.sSigValue ++ tail))) (1 + 0)
  have hsig := slice_append (ofNat spkg :: f.head ++ ([f.bSigType] ++
    put16 (UInt16.ofNat f.sSigValue.length))) f.sSigValue tail
  rw [append_assoc, append_assoc, ← htail, length_append, f.length_front] at hsig
  rw [← htail, f.length_front] at hsig8 hsig16
  have hput := rd16_append_right [f.bSigType] (put16 (UInt16.ofNat f.sSigValue.length) ++
    (f.sSigValue ++ tail)) 0
  rw [rd16_put16, hsl] at hput
  exact
    { long := by simp only [tSignatureLen] at hbasic ⊢; omega
      pkgLen := (f.rd16_head (by decide)).trans h.pkgLen
      short := h.len
      first := rfl
      last := f.rd8_last
      cmd := by rw [f.rd32_head (i := 0) (by decide), packet, hcmd, getD_some]
      seq := by rw [f.rd32_head (i := 4) (by decide), packet, hseq, getD_some]
      toBody := (f.rd16_head (by decide)).trans h.toBody
      retCode := by rw [f.rd8_head (i := 12) (by decide), bRetCode, hret, getD_some]
      version := by rw [f.rd16_head (i := 14) (by decide), packet, hver, getD_some]
      sigType := hsig8
      sigLen := hsig16.trans hput
      sigIn := by omega
      sigMax := h.sigLen
      basicLen := by omega
      bodyIn := by simp only [tPkgBodyLen]; omega
      tlvs := f.checkPkgBody_body
      sig := hsig.symm
      content := f.drop_basicLen.symm
      contentLen := by simp only [packet]; omega
      body := f.slice_body.symm }

end Form

theorem Facts.form {wToPkgBody wSigLen : Nat}
    {bRetCode : Nat} (h : Facts wSigMax buf wToPkgBody wSigLen p bRetCode) :
    ∃ f : Form, buf = f.bytes ∧ f.Sized wSigMax := by
  obtain ⟨hsl, hslt⟩ : slice buf 70 2 = put16 (UInt16.ofNat wSigLen) ∧ wSigLen < 65536 :=
    slice_of_rd16 h.sigLen
  have hst : slice buf 69 1 = [ofNat p.bSigType] := slice_of_rd8 h.sigType
  obtain ⟨ts, rest, htlt, hbody⟩ := checkPkgBody_eq_true h.tlvs
  have hlong := h.long
  have hsig := h.sigIn
  have hbasic := h.basicLen
  have hin := h.bodyIn
  simp only [reqPkgHeadLen, tSignatureLen, tPkgBodyLen] at hsig hbasic hin
  have hslice : ∀ i n, i + n ≤ buf.length → (slice buf i n).length = n := by
    simp only [slice, length_take, length_drop]
    omega
  let f : Form :=
    { head := slice buf 1 68
      head_len := hslice 1 68 (by omega)
      bSigType := ofNat p.bSigType
      sSigValue := slice buf 72 wSigLen
      sig_lt := by rw [hslice 72 wSigLen (by omega)]; exact hslt
      content := slice buf (72 + wSigLen) (wToPkgBody - (72 + wSigLen))
      tlvs := ts
      tlvs_lt := htlt
      rest := rest }
  have hsigLen : f.sSigValue.length = wSigLen := hslice 72 wSigLen (by omega)
  have hcontentLen : f.content.length = wToPkgBody - (72 + wSigLen) :=
    hslice _ _ (by omega)
  have htoBody : f.toBody = wToPkgBody := by
    rw [Form.toBody, Form.basicLen]
    simp only [reqPkgHeadLen, tSignatureLen]
    omega
  have hbodyEq : slice buf wToPkgBody (buf.length - wToPkgBody - 1) = f.body :=
    h.body.symm.trans hbody
  have hlast : buf.drop (buf.length - 1) = [ofNat epkg] := by
    rw [drop_eq_slice_append buf (buf.length - 1) 1, slice_of_rd8 h.last,
      Nat.sub_add_cancel (by omega), drop_length, append_nil]
  have hbodyEnd : wToPkgBody + (buf.length - wToPkgBody - 1) = buf.length - 1 := by omega
  have hcontent : f.content ++ buf.drop wToPkgBody = buf.drop (72 + wSigLen) := by
    have hend : 72 + wSigLen + (wToPkgBody - (72 + wSigLen)) = wToPkgBody := by omega
    rw [drop_eq_slice_append buf (72 + wSigLen) (wToPkgBody - (72 + wSigLen)), hend]
  have hf : buf = f.bytes := by
    calc buf = slice buf 0 1 ++ (slice buf 1 68 ++ (slice buf 69 1 ++ (slice buf 70 2 ++
          (slice buf 72 wSigLen ++ (f.content ++
            (slice buf wToPkgBody (buf.length - wToPkgBody - 1) ++ buf.drop (buf.length - 1))))))) := by
          rw [← hbodyEnd, ← drop_eq_slice_append, hcontent, ← drop_eq_slice_append buf 72,
            ← drop_eq_slice_append buf 70 2, ← drop_eq_slice_append buf 69 1,
            ← drop_eq_slice_append buf 1 68, ← drop_eq_slice_append buf 0 1, drop_zero]
      _ = f.bytes := by
          rw [slice_of_rd8 h.first, hst, hsl, hbodyEq, hlast, Form.bytes, Form.sig, hsigLen]
          simp [f]
  refine ⟨f, hf, ?_⟩
  have hpkg := h.pkgLen
  have hto := h.toBody
  have hshort := h.short
  rw [hf] at hpkg hto hshort
  exact
    { pkgLen := (f.rd16_head (by decide)).symm.trans hpkg
      toBody := by rw [htoBody]; exact (f.rd16_head (by decide)).symm.trans hto
      sigLen := by rw [hsigLen]; exact h.sigMax
      len := hshort }

/-- The packets that pass the common part of the check are those of a form
with the right lengths. -/
theorem checkParts_ok_iff {bRetCode : Nat} : checkParts wSigMax buf = some (.ok (p, bRetCode)) ↔
      ∃ f : Form, buf = f.bytes ∧ f.Sized wSigMax ∧ p = f.packet ∧ bRetCode = f.bRetCode := by
  constructor
  · intro h
    obtain ⟨wTo, wSigLen, hfacts⟩ := checkParts_eq_ok h
    obtain ⟨f, rfl, hsized⟩ := hfacts.form
    rw [hsized.facts.checkParts] at h
    cases h
    exact ⟨f, rfl, hsized, rfl, rfl⟩
  · rintro ⟨f, rfl, hsized, rfl, rfl⟩
    exact hsized.facts.checkParts

/-! ## The agent's check -/

/-- mirrors slog_mtreport_client/sv_struct.h:81 -/
def tlvAckError : Nat := 5

/-- A zero as the last character of the first error text; `sValue[-1]` of an
empty text is the low byte of its length, a zero already. The list is that of
the TLVs. mirrors mtreport_basic_pkg.cpp:207-214 -/
def endErrorText : Nat → Bytes → Option Bytes
  | 0, b => some b
  | n + 1, b => do
    let t ← rd16 b 0
    let wLen ← rd16 b 2
    if t = tlvAckError then pure (b.set (wLen + twTlvLen - 1) 0)
    else (endErrorText n (b.drop (wLen + twTlvLen))).map (b.take (wLen + twTlvLen) ++ ·)

/-- A packet that the agent accepted; it may carry an error code. -/
structure AgentPacket extends Packet where
  bRetCode : Nat
  deriving DecidableEq

/-- The packet after its error text was ended in place. -/
def ackError (p : Packet) (bRetCode : Nat) : Option AgentPacket := do
  let bTlvNum ← rd8 p.body 0
  let tlvs ← endErrorText bTlvNum (p.body.drop tPkgBodyLen)
  let body := p.body.take tPkgBodyLen ++ tlvs
  pure { p with
      body := body
      content := p.content.take p.wCmdContentLen ++
        (body ++ p.content.drop (p.wCmdContentLen + body.length))
      bRetCode := bRetCode }

/-- `unsigned len = iPkgLen`; a `wSigLen` has no limit but its 16 bits, and
`PKG_BUFF_LENGTH` is the number of `MAX_UDP_REQ_PACKET_SIZE`.
mirrors mtreport_basic_pkg.cpp:143-221 -/
def agentCheckBasicPacket (buf : Bytes) : Option (Except Err AgentPacket) := do
  match ← checkParts 65535 (buf.take (buf.length % 4294967296)) with
  | .error e => return .error e
  | .ok (p, bRetCode) =>
    if bRetCode = 0 then return .ok { p with bRetCode := 0 }
    else return .ok (← ackError p bRetCode)

/-- The text of the TLV, ended. -/
def WTlv.endText (t : WTlv) : WTlv where
  wType := t.wType
  sValue := t.sValue.set (t.sValue.length - 1) 0
  len_lt := by rw [length_set]; exact t.len_lt

def endFirstError : List WTlv → List WTlv
  | [] => []
  | t :: ts => if t.wType.toNat = tlvAckError then t.endText :: ts else t :: endFirstError ts

theorem length_endFirstError (ts : List WTlv) : (endFirstError ts).length = ts.length := by
  induction ts with
  | nil => rfl
  | cons t ts ih =>
    rw [endFirstError]
    split <;> simp [ih]

theorem WTlv.bytes_set (t : WTlv) :
    t.bytes.set (t.sValue.length + twTlvLen - 1) 0 = t.endText.bytes := by
  have hlen : t.endText.wLen = t.wLen := by
    simp [wLen, endText]
  cases hv : t.sValue with
  | nil =>
    have h0 : t.wLen = 0 := by simp [wLen, hv]
    rw [bytes, bytes, hlen, h0]
    simp [endText, hv, put16, twTlvLen]
  | cons x xs =>
    have hidx : (x :: xs).length + twTlvLen - 1 = xs.length + 2 + 2 := by simp [twTlvLen]
    rw [bytes, bytes, hlen, hidx]
    simp [endText, hv, put16]

theorem endErrorText_tlvBytes (ts : List WTlv) (rest : Bytes) :
    endErrorText ts.length (tlvBytes ts ++ rest) = some (tlvBytes (endFirstError ts) ++ rest) := by
  induction ts with
  | nil => rfl
  | cons t ts ih =>
    rw [tlvBytes_cons, length_cons, endErrorText, t.rd16_type, t.rd16_len, endFirstError]
    simp only [bind_eq_bind, bind_some, Option.pure_def, t.drop_next, ih, map_some]
    have htake : (t.bytes ++ (tlvBytes ts ++ rest)).take (t.sValue.length + twTlvLen) = t.bytes := by
      rw [← t.length_bytes, take_left]
    split
    · rw [set_append_left _ _ (by rw [t.length_bytes]; simp only [twTlvLen]; omega),
        t.bytes_set, tlvBytes_cons]
    · rw [htake, tlvBytes_cons]

/-- The packet with its first error text ended. -/
def Form.endError (f : Form) : Form :=
  { f with
    tlvs := endFirstError f.tlvs
    tlvs_lt := by rw [length_endFirstError]; exact f.tlvs_lt }

theorem length_tlvBytes_endFirstError (ts : List WTlv) :
    (tlvBytes (endFirstError ts)).length = (tlvBytes ts).length := by
  induction ts with
  | nil => rfl
  | cons t ts ih =>
    have htext : t.endText.sValue.length = t.sValue.length := length_set
    rw [endFirstError]
    split
    · rw [length_tlvBytes_cons, length_tlvBytes_cons, htext]
    · rw [length_tlvBytes_cons, length_tlvBytes_cons, ih]

theorem ackError_packet (f : Form) (bRetCode : Nat) :
    ackError f.packet bRetCode = some { f.endError.packet with bRetCode := bRetCode } := by
  have hnum : rd8 f.packet.body 0 = some f.tlvs.length := f.rd8_body
  have htlvs : f.packet.body.drop tPkgBodyLen = tlvBytes f.tlvs ++ f.rest := rfl
  have hbody : f.packet.body.take tPkgBodyLen ++ (tlvBytes (endFirstError f.tlvs) ++ f.rest) =
      f.endError.body := by
    simp [Form.packet, Form.body, Form.endError, tPkgBodyLen, length_endFirstError]
  have hlen : f.endError.body.length = f.body.length := by
    simp [Form.body, Form.endError, length_tlvBytes_endFirstError]
  have hcontent : f.packet.content.take f.packet.wCmdContentLen ++ (f.endError.body ++
      f.packet.content.drop (f.packet.wCmdContentLen + f.endError.body.length)) =
      f.endError.packet.content := by
    rw [hlen, ← drop_drop]
    simp only [Form.packet, take_left, drop_left]
    rfl
  rw [ackError, hnum]
  simp only [bind_eq_bind, bind_some, htlvs, endErrorText_tlvBytes, hbody, hcontent]
  rfl

/-! ## What is accepted -/

/-- With `bUseSelfBuf` the packet is checked in `m_sCommBuf`; the inner `none`
is `ERR_INVALID_PACKET_LEN`. mirrors basic_packet.cpp:276-296 -/
def checkBasicPacketIn (bUseSelfBuf : Bool) (buf : Bytes) : Option (Option Checked) := do
  if !(← isPacketPb buf) && bUseSelfBuf && maxUdpReqPacketSize < buf.length then return none
  return some (← checkBasicPacket buf)

/-- The search for a TLV of any type returns the first, or none, whatever
stands behind the TLVs, also when nothing does: it reads the TLVs only. -/
def SearchesTlvs (f : Form) : Prop :=
  ∀ wType rest, getWTlvByType2 wType (ofNat f.tlvs.length :: (tlvBytes f.tlvs ++ rest)) =
    some (firstTlv wType f.tlvs rest)

theorem searchesTlvs (f : Form) : SearchesTlvs f := by
  intro wType rest
  rw [getWTlvByType2, rd8, getElem?_cons_zero, map_some, f.toNat_tlvNum]
  exact findTlv_tlvBytes wType f.tlvs rest

theorem server_packet_form {bUseSelfBuf : Bool}
    (h : checkBasicPacketIn bUseSelfBuf buf = some (some (.ok p))) :
    ∃ f : Form, buf = f.bytes ∧ f.Sized maxSignatureLen ∧ f.bRetCode = 0 ∧ p = f.packet := by
  simp only [checkBasicPacketIn, bind_eq_bind, bind_eq_some_iff, Option.pure_def] at h
  obtain ⟨pb, -, h⟩ := h
  split at h
  · cases h
  simp only [bind_eq_some_iff, some.injEq] at h
  obtain ⟨c, hc, rfl⟩ := h
  rw [checkBasicPacket_eq] at hc
  simp only [bind_eq_some_iff] at hc
  obtain ⟨pb, -, hc⟩ := hc
  split at hc
  · cases hc
  obtain ⟨r, hr, hok⟩ := map_eq_some_iff.mp hc
  cases r with
  | error e => cases hok
  | ok pr =>
    obtain ⟨q, ret⟩ := pr
    simp only [Checked.ofParts] at hok
    split at hok
    · cases hok
    · cases hok
      obtain ⟨f, rfl, hsized, rfl, rfl⟩ := checkParts_ok_iff.mp hr
      exact ⟨f, rfl, hsized, Decidable.not_not.mp ‹_›, rfl⟩

theorem agent_packet_form {p : AgentPacket} (h : agentCheckBasicPacket buf = some (.ok p)) :
    ∃ f : Form, buf.take (buf.length % 4294967296) = f.bytes ∧ f.Sized 65535 ∧
      p = { (if f.bRetCode = 0 then f else f.endError).packet with bRetCode := f.bRetCode } := by
  simp only [agentCheckBasicPacket, bind_eq_bind, bind_eq_some_iff] at h
  obtain ⟨r, hr, h⟩ := h
  cases r with
  | error e => cases h
  | ok pr =>
    obtain ⟨q, ret⟩ := pr
    obtain ⟨f, hf, hsized, rfl, rfl⟩ := checkParts_ok_iff.mp hr
    refine ⟨f, hf, hsized, ?_⟩
    dsimp only at h
    split at h
    · rename_i h0
      cases h
      rw [if_pos h0, h0]
    · rename_i h0
      rw [ackError_packet] at h
      cases h
      rw [if_neg h0]

/-- Every string that one of the two checks accepts is, before its last byte,
the head, the signature, the content and the body one after the other, the
TLVs at the front of the body; the lengths are those the check returns. The
agent leaves the ranges as they are when it ends an error text. -/
theorem accepted_packet_form :
    (∀ bUseSelfBuf buf p, checkBasicPacketIn bUseSelfBuf buf = some (some (.ok p)) →
      ∃ f : Form, buf = f.bytes ∧ p = f.packet ∧ SearchesTlvs f) ∧
    (∀ buf p, agentCheckBasicPacket buf = some (.ok p) →
      ∃ f : Form, buf.take (buf.length % 4294967296) = f.bytes ∧
        p = { (if f.bRetCode = 0 then f else f.endError).packet with bRetCode := f.bRetCode } ∧
        f.endError.bytes.length = f.bytes.length ∧ f.endError.toBody = f.toBody ∧
        SearchesTlvs f ∧ SearchesTlvs f.endError) := by
  constructor
  · intro bUseSelfBuf buf p h
    obtain ⟨f, hf, -, -, hp⟩ := server_packet_form h
    exact ⟨f, hf, hp, searchesTlvs f⟩
  · intro buf p h
    obtain ⟨f, hf, -, hp⟩ := agent_packet_form h
    refine ⟨f, hf, hp, ?_, rfl, searchesTlvs f, searchesTlvs _⟩
    rw [Form.length_bytes, Form.length_bytes]
    simp [Form.body, Form.endError, Form.toBody, Form.basicLen, length_tlvBytes_endFirstError]

/-! A form with the right lengths is accepted. -/

theorem Form.isPacketPb_bytes (f : Form) : isPacketPb f.bytes = some false := by
  have hlong : ¬f.bytes.length ≤ 10 := by
    rw [f.length_bytes, Form.toBody, Form.basicLen]
    simp only [reqPkgHeadLen]
    omega
  have hfirst : rd8 f.bytes 0 = some spkg := rfl
  rw [isPacketPb, PbMembers.isPacketPb, isPacketPbIn, if_neg hlong, f.rd8_last]
  rfl

theorem Form.Sized.checkBasicPacket {f : Form} (h : f.Sized maxSignatureLen)
    (h0 : f.bRetCode = 0) : checkBasicPacket f.bytes = some (.ok f.packet) := by
  rw [checkBasicPacket_eq, f.isPacketPb_bytes, h.facts.checkParts]
  simp [Checked.ofParts, h0]

theorem Form.Sized.agentCheckBasicPacket {f : Form} (h : f.Sized 65535) (h0 : f.bRetCode = 0) :
    agentCheckBasicPacket f.bytes = some (.ok { f.packet with bRetCode := 0 }) := by
  have hlen := h.len
  simp only [maxUdpReqPacketSize] at hlen
  rw [PacketForm.agentCheckBasicPacket, Nat.mod_eq_of_lt (by omega), take_length, h.facts.checkParts]
  simp [h0]

/-- **The two checks.** The server accepts exactly the packets without an error code that the
agent accepts, of its length and with a signature of its length, and both find the same parts. -/
theorem checks_agree (buf : Bytes) (p : Packet) : checkBasicPacket buf = some (.ok p) ↔
    buf.length ≤ maxUdpReqPacketSize ∧ p.sSigValue.length ≤ maxSignatureLen ∧
      agentCheckBasicPacket buf = some (.ok { p with bRetCode := 0 }) := by
  constructor
  · intro h
    obtain ⟨pb, hpb, -⟩ := bind_eq_some_iff.mp ((checkBasicPacket_eq buf).symm.trans h)
    have hin : checkBasicPacketIn false buf = some (some (.ok p)) := by
      simp [checkBasicPacketIn, hpb, h]
    obtain ⟨f, rfl, hs, h0, rfl⟩ := server_packet_form hin
    have hs' : f.Sized 65535 := ⟨hs.pkgLen, hs.toBody, le_trans hs.sigLen (by decide), hs.len⟩
    exact ⟨hs.len, hs.sigLen, hs'.agentCheckBasicPacket h0⟩
  · rintro ⟨hlen, hsig, h⟩
    obtain ⟨f, hf, hs, hp⟩ := agent_packet_form h
    have hbuf : buf.length % 4294967296 = buf.length := by
      simp only [maxUdpReqPacketSize] at hlen; omega
    rw [hbuf, take_length] at hf
    have h0 : f.bRetCode = 0 := (congrArg AgentPacket.bRetCode hp).symm
    rw [if_pos h0] at hp
    obtain rfl : p = f.packet := congrArg AgentPacket.toPacket hp
    rw [hf]
    exact Form.Sized.checkBasicPacket ⟨hs.pkgLen, hs.toBody, hsig, hs.len⟩ h0

/-- A packet with a signature, a content and a TLV. -/
def sampleForm : Form where
  head := List.replicate 8 0 ++ ([0, 84, 0, 77] ++ List.replicate 56 0)
  head_len := rfl
  bSigType := 101
  sSigValue := [1, 2]
  sig_lt := by decide
  content := [3, 4, 5]
  tlvs := [⟨204, [7], by decide⟩]
  tlvs_lt := by decide
  rest := []

theorem accepted_packet_form_sample : (∃ f : Form, sampleForm.bytes = f.bytes ∧ SearchesTlvs f) ∧
    (∃ f : Form, sampleForm.bytes.take (sampleForm.bytes.length % 4294967296) = f.bytes ∧
      SearchesTlvs f) := by
  constructor
  · obtain ⟨f, hf, _, hs⟩ := accepted_packet_form.1 false sampleForm.bytes sampleForm.packet
      (by decide +kernel)
    exact ⟨f, hf, hs⟩
  · obtain ⟨f, hf, _, _, _, hs, _⟩ := accepted_packet_form.2 sampleForm.bytes
      { sampleForm.packet with bRetCode := 0 }
      (Form.Sized.agentCheckBasicPacket ⟨rfl, rfl, by decide, by decide⟩ rfl)
    exact ⟨f, hf, hs⟩

end DesPwd.L1.PacketForm
