import DesPwd.Core.CharBuf
import DesPwd.L4App.AgentStrAttr
import DesPwd.L4App.LogConfigCheck
import DesPwd.L4App.StrAttrDecode

/-!
# slog_mtreport_client: a batch of string attributes on its way to the server

`EnvSendStrAttrToServer` packs up to 15 string attributes into the content of one
packet. Each takes 13 bytes and its string, so 15 always fit the buffer of the
content. The packet has 1200 bytes too, of which 166 are not content: a batch of more
than 1034 bytes is refused by `MakePacket`. Nobody looks at that, and `SendPacket`
sends the 1200 bytes that the session buffer had before.

The bytes of structures on the stack that are not set are arguments; the session and
its timer are left out.

* `readStrAttrs_nodes`: the server's loop reads back what was packed.
* `str_attr_batch_iff`: which batches reach the server.
* `str_attr_batch_lost`: 15 strings of 64 bytes do not.

The source files are in `slog_mtreport_client/`.
-/
namespace DesPwd.L4.StrAttrSend

open Bytes L1.BasicPacket L1.PacketForm L1.PacketMake UInt32
  DesPwd.L3.AgentReport DesPwd.L4.AttrServer DesPwd.L4.AgentStrAttr
open List hiding Vector
open L4.LogConfigCheck (nextSeq initReqPkgHead)

/-! ## The agent -/

/-- `TIMER_DATA_MAX_LENGTH` -/
def timerDataMaxLength : Nat := 8192

/-- A node of `stStrAttrRead`: its string ends inside `szStrInfo`. -/
structure ReadNode where
  node : StrAttrNode
  noNul : 0 ∉ node.szStrInfo
  short : node.szStrInfo.length < 65

/-- `stStrAttrRead` -/
structure Batch where
  nodes : List ReadNode
  len_le : nodes.length ≤ readPerEach

/-- What the call uses of `stConfig` and of the shared memory. -/
structure Agent where
  dwPkgSeq : UInt32
  iEnableEncryptData : Bool
  szUserKey : Bytes
  sRandKey : Bytes
  iAttrSrvMtClientIndex : UInt32
  iMachineId : UInt32
  dwAttrSrvIp : UInt32
  wAttrServerPort : UInt16
  /-- `inet_addr` of `szCustAttrSrvIp`, if that is not empty -/
  custAttrSrvIp : Option UInt32
  iCustAttrSrvPort : Int32
  /-- `sSessBuf` behind the session, as the packets before left it -/
  pPkg : Vector UInt8 timerDataMaxLength

/-- The bytes of `stSigInfo` and `stTlvInfo` that are not set. -/
structure Unset where
  stSigRest : Vector UInt8 16
  stTlvRest : Vector UInt8 38

/-- `sin_addr` and `sin_port`; mirrors mtreport_client.cpp:1162-1171 -/
def addrServer (s : Agent) : UInt32 × UInt16 :=
  match s.custAttrSrvIp with
  | some ip =>
    if s.iCustAttrSrvPort ≠ 0 then (ip, htons s.iCustAttrSrvPort.toUInt32.toUInt16)
    else (s.dwAttrSrvIp, htons s.wAttrServerPort)
  | none => (s.dwAttrSrvIp, htons s.wAttrServerPort)

/-- A `StrAttrNodeClient` and its string. -/
def nodeBytes (nd : StrAttrNode) : Bytes :=
  put32 nd.iStrAttrId.toUInt32 ++ (put32 nd.iStrVal.toUInt32 ++
    (put32 (ofNat (nd.szStrInfo.length + 1)) ++ (nd.szStrInfo ++ [0])))

/-- `strAttrSendBuf` up to `iUseBufLen`; mirrors
mtreport_client.cpp:1176-1191 -/
def packStrAttrs : List ReadNode → Bytes → Bytes
  | [], buf => buf
  | nd :: nds, buf =>
    if maxAttrPkgLength ≤ nd.node.szStrInfo.length + 1 + buf.length + strAttrNodeLen then buf
    else packStrAttrs nds (buf ++ nodeBytes nd.node)

/-- A `MonitorCommSig`, encrypted; mirrors sv_struct.cpp:139-152 -/
def signature (cipher : InvCipher) (s : Agent) (dwSeq dwCmd : UInt32) (rest : Vector UInt8 16) :
    TSignature where
  bSigType := UInt8.ofNat sigTypeCommon
  sSigValue := aesCipherData (cipher .aes128 s.szUserKey)
    (put32 dwSeq ++ (put32 dwCmd ++ ((if s.iEnableEncryptData then 1 else 0) :: rest.toList)))
  len_le := by
    rw [length_aesCipherData]
    simp [maxSignatureLen]

/-- The TLV with the ids of the agent;
mirrors mtreport_protoc.cpp:2514-2523 -/
def commInfoTlv (s : Agent) (rest : Vector UInt8 38) : WTlv where
  wType := UInt16.ofNat tlvMoniCommInfo
  sValue := put32 s.iAttrSrvMtClientIndex ++ (put32 s.iMachineId ++
    (put32 (addrServer s).1 ++ (put16 (addrServer s).2 ++ rest.toList)))
  len_lt := by simp

/-- The parts of the packet. -/
def attrResp (cipher : InvCipher) (s : Agent) (u : Unset) (dwCmd : UInt32) (content : Bytes) :
    Resp where
  sig := some (signature cipher s (nextSeq s.dwPkgSeq).1 dwCmd u.stSigRest)
  content := content
  body := some ⟨[commInfoTlv s u.stTlvRest], by simp⟩

/-- The `iPkgLen` bytes of `pPkg` afterwards, which are the old ones when the packet
was not made. mirrors mtreport_protoc.cpp:2482-2528 -/
def makeAttrPkg (cipher : InvCipher) (s : Agent) (u : Unset) (content : Bytes)
    (bIsStrAttr : Bool) : Bytes :=
  let dwCmd : UInt32 := ofNat (if bIsStrAttr then cmdMoniSendStrAttr else cmdMoniSendAttr)
  match agentMakePacket (initReqPkgHead dwCmd (nextSeq s.dwPkgSeq).1)
      (attrResp cipher s u dwCmd content) maxAttrPkgLength 0 with
  | some b => b
  | none => s.pPkg.toList.take maxAttrPkgLength

/-- What goes to `SendPacket`; `none` is an error before it.
mirrors mtreport_client.cpp:1147-1211 -/
def envSendStrAttrToServer (cipher : InvCipher) (s : Agent) (u : Unset) (b : Batch) :
    Option Bytes :=
  if s.dwAttrSrvIp = 0 ∧ s.iCustAttrSrvPort = 0 then none
  else
    let strAttrSendBuf := packStrAttrs b.nodes []
    if s.iEnableEncryptData then
      let sAttrBufEnc := aesCipherData (cipher .aes128 s.sRandKey) strAttrSendBuf
      if maxAttrPkgLength + 256 < sAttrBufEnc.length then none
      else some (makeAttrPkg cipher s u sAttrBufEnc true)
    else some (makeAttrPkg cipher s u strAttrSendBuf true)

/-! ## The property -/

/-- What the server reads for a node. -/
def attrInfo (nd : ReadNode) : AttrInfo :=
  ⟨nd.node.iStrAttrId.toUInt32.toNat, nd.node.iStrVal.toUInt32.toNat, some nd.node.szStrInfo⟩

/-- The server accepts the packet as a report of strings and reads the batch. -/
def Delivers (b : Batch) (pkt : Bytes) : Prop :=
  ∃ p, checkBasicPacket pkt = some (.ok p) ∧ p.dwCmd = cmdMoniSendStrAttr ∧
    ∃ rounds, readStrAttrs p.wCmdContentLen rounds p.content 0 [] = some (.ok (b.nodes.map attrInfo))

/-- The bytes of the batch, 13 and the string for each node. -/
def Batch.size (b : Batch) : Nat := (b.nodes.map fun nd => 13 + nd.node.szStrInfo.length).sum

/-! ## Packing -/

section Packing

/-- The nodes one after the other. -/
def nodesBytes (nds : List ReadNode) : Bytes := nds.flatMap fun nd => nodeBytes nd.node

@[simp] theorem nodesBytes_cons (nd : ReadNode) (nds : List ReadNode) :
    nodesBytes (nd :: nds) = nodeBytes nd.node ++ nodesBytes nds := flatMap_cons

@[simp] theorem length_nodeBytes (nd : StrAttrNode) :
    (nodeBytes nd).length = 13 + nd.szStrInfo.length := by
  simp [nodeBytes]
  omega

/-- As long as 77 bytes are left for each node, the loop does not stop before its
end. -/
theorem packStrAttrs_eq {nds : List ReadNode} {buf : Bytes}
    (h : buf.length + 77 * nds.length < maxAttrPkgLength) :
    packStrAttrs nds buf = buf ++ nodesBytes nds := by
  induction nds generalizing buf with
  | nil => simp [packStrAttrs, nodesBytes]
  | cons nd nds ih =>
    have hshort := nd.short
    simp only [length_cons] at h
    rw [packStrAttrs, if_neg (by unfold strAttrNodeLen; omega), ih]
    · simp
    · simp only [length_append, length_nodeBytes]
      omega

theorem packStrAttrs_batch (b : Batch) : packStrAttrs b.nodes [] = nodesBytes b.nodes := by
  have hlen := b.len_le
  have hroom : ([] : Bytes).length + 77 * b.nodes.length < maxAttrPkgLength := by
    simp only [length_nil, readPerEach, maxAttrPkgLength] at hlen ⊢
    omega
  rw [packStrAttrs_eq hroom, nil_append]

end Packing

/-! ## Reading back -/

section Reading

theorem swap32_append (d x rest : Bytes) (hx : x.length = 4) :
    swap32 (d ++ (x ++ rest)) d.length = d ++ (x.reverse ++ rest) := by
  have hdrop : (d ++ (x ++ rest)).drop (d.length + 4) = rest := by
    rw [← drop_drop, drop_left, ← hx, drop_left]
  rw [swap32, hdrop, take_left, ← hx, slice_append, append_assoc]

/-- The head of a node behind `d`, in host order. -/
theorem swap32_node (d x y z rest : Bytes) (hx : x.length = 4) (hy : y.length = 4)
    (hz : z.length = 4) :
    swap32 (swap32 (swap32 (d ++ (x ++ (y ++ (z ++ rest)))) d.length) (d.length + 4))
        (d.length + 8) =
      (d ++ (x.reverse ++ (y.reverse ++ z.reverse))) ++ rest := by
  have hdx : d.length + 4 = (d ++ x.reverse).length := by simp [hx]
  have hdy : d.length + 8 = (d ++ x.reverse ++ y.reverse).length := by simp [hx, hy]
  rw [swap32_append d x _ hx, ← append_assoc, hdx, swap32_append _ y _ hy,
    ← append_assoc, hdy, swap32_append _ z _ hz]
  simp

theorem toS32_strLen {nd : ReadNode} :
    toS32 (ofNat (nd.node.szStrInfo.length + 1)).toNat = nd.node.szStrInfo.length + 1 := by
  have := nd.short
  rw [toNat_ofNat_of_lt' (by simp only [size]; omega), toS32, if_pos (by omega)]
  rfl

/-- One iteration on a node behind any bytes. Its head is turned around, the rest of
the memory stays. -/
theorem readStrAttrs_node {len n : Nat} (nd : ReadNode) (d rest : Bytes) (attrs : List AttrInfo)
    (hlen : d.length + (nodeBytes nd.node).length ≤ len) :
    ∃ d', d'.length = d.length + (nodeBytes nd.node).length ∧
      readStrAttrs len (n + 1) (d ++ (nodeBytes nd.node ++ rest)) d.length attrs =
        readStrAttrs len n (d' ++ rest) d'.length (attrs ++ [attrInfo nd]) := by
  have hnode : strAttrNodeLen = 12 := rfl
  let id := put32 nd.node.iStrAttrId.toUInt32
  let val := put32 nd.node.iStrVal.toUInt32
  let strLen := put32 (ofNat (nd.node.szStrInfo.length + 1))
  let d' := d ++ (id.reverse ++ (val.reverse ++ strLen.reverse))
  have hd' : d'.length = d.length + 12 := by simp [d', id, val, strLen]
  have hmem : d ++ (nodeBytes nd.node ++ rest) =
      d ++ (id ++ (val ++ (strLen ++ (nd.node.szStrInfo ++ 0 :: rest)))) := by
    simp [nodeBytes, id, val, strLen]
  have hid : rd32 (d ++ (nodeBytes nd.node ++ rest)) d.length =
      some nd.node.iStrAttrId.toUInt32.toNat := by
    exact (rd32_append_right d _ 0).trans (rd32_put32 _ _)
  have hval : rd32 (d ++ (nodeBytes nd.node ++ rest)) (d.length + 4) =
      some nd.node.iStrVal.toUInt32.toNat := by
    exact (rd32_append_right d _ 4).trans ((rd32_append_right id _ 0).trans (rd32_put32 _ _))
  have hstrLen : rd32 (d ++ (nodeBytes nd.node ++ rest)) (d.length + 8) =
      some (ofNat (nd.node.szStrInfo.length + 1)).toNat := by
    exact (rd32_append_right d _ 8).trans ((rd32_append_right id _ 4).trans
      ((rd32_append_right val _ 0).trans (rd32_put32 _ _)))
  have hswap : swap32 (swap32 (swap32 (d ++ (nodeBytes nd.node ++ rest)) d.length) (d.length + 4))
      (d.length + 8) = d' ++ (nd.node.szStrInfo ++ 0 :: rest) := by
    rw [hmem]
    exact swap32_node d id val strLen _ rfl rfl rfl
  have hrest : (d' ++ (nd.node.szStrInfo ++ 0 :: rest)).drop (d.length + strAttrNodeLen) =
      nd.node.szStrInfo ++ 0 :: rest := by
    rw [hnode, ← hd', drop_left]
  rw [length_nodeBytes] at hlen
  refine ⟨d' ++ (nd.node.szStrInfo ++ [0]), ?_, ?_⟩
  · simp only [length_append, length_nodeBytes, length_singleton]
    omega
  rw [readStrAttrs, if_pos (by omega), hid, hval, hstrLen]
  simp only [Option.bind_eq_bind, Option.bind_some, hswap, hrest, toS32_strLen]
  rw [if_neg (by omega), cStr_append nd.noNul (by simp only [length_append]; omega),
    Option.bind_some]
  congr 1
  · simp
  · simp only [length_append, length_singleton]
    omega

/-- The server's loop reads the nodes that were packed, whatever stands behind
them. -/
theorem readStrAttrs_nodes {len : Nat} (rest : Bytes) (nds : List ReadNode) (d : Bytes)
    (attrs : List AttrInfo) (hlen : len = d.length + (nodesBytes nds).length) :
    readStrAttrs len (nds.length + 1) (d ++ (nodesBytes nds ++ rest)) d.length attrs =
      some (.ok (attrs ++ nds.map attrInfo)) := by
  induction nds generalizing d attrs with
  | nil =>
    simp only [nodesBytes, flatMap_nil, length_nil] at hlen
    rw [readStrAttrs, if_neg (by simp only [strAttrNodeLen]; omega)]
    simp
  | cons nd nds ih =>
    rw [nodesBytes_cons, length_append] at hlen
    obtain ⟨d', hd', hstep⟩ := readStrAttrs_node nd d
      (nodesBytes nds ++ rest) attrs (show _ ≤ len by omega)
    rw [nodesBytes_cons, append_assoc, length_cons, hstep, ih d' _ (by omega)]
    simp

end Reading

/-! ## The packet -/

section Packet

variable (cipher : InvCipher) (s : Agent) (u : Unset) (content : Bytes)

/-- `CMD_MONI_SEND_STR_ATTR` -/
def sendStrAttrHead (s : Agent) : ReqPkgHead :=
  initReqPkgHead (ofNat cmdMoniSendStrAttr) (nextSeq s.dwPkgSeq).1

theorem need_attrResp (dwCmd : UInt32) :
    (attrResp cipher s u dwCmd content).need = 166 + content.length := by
  have hbody : (attrResp cipher s u dwCmd content).wRespBodyLen = 57 := by
    show (TPkgBody.bytes _).length = 57
    simp [TPkgBody.bytes, tlvBytes, commInfoTlv, twTlvLen]
  have hsig : (attrResp cipher s u dwCmd content).wRespSigLen = 35 := by
    show (TSignature.bytes _).length = 35
    simp [TSignature.bytes, signature, length_aesCipherData]
  rw [Resp.need, hbody, hsig]
  simp only [reqPkgHeadLen, tSignatureLen, tPkgBodyLen, attrResp]
  omega

/-- The packet; with a content of more than 1034 bytes the old bytes are sent. -/
theorem makeAttrPkg_eq : makeAttrPkg cipher s u content true = if content.length ≤ 1034 then
      (attrResp cipher s u (ofNat cmdMoniSendStrAttr) content).packetBytes
        { sendStrAttrHead s with bRetCode := 0 }
    else s.pPkg.toList.take maxAttrPkgLength := by
  have hneed := need_attrResp cipher s u content (ofNat cmdMoniSendStrAttr)
  unfold makeAttrPkg agentMakePacket
  simp only [if_true, maxAttrPkgLength]
  by_cases h : content.length ≤ 1034
  · rw [if_neg (by omega), if_pos h]
    rfl
  · rw [if_pos (by omega), if_neg h]

/-- The server accepts the packet and finds the content in it. -/
theorem makeAttrPkg_made (h : content.length ≤ 1034) :
    ∃ p rest, checkBasicPacket (makeAttrPkg cipher s u content true) = some (.ok p) ∧
      p.dwCmd = cmdMoniSendStrAttr ∧ p.wCmdContentLen = content.length ∧
      p.content = content ++ rest := by
  have hsize := (attrResp cipher s u (ofNat cmdMoniSendStrAttr) content).pkgLen_le_need
  rw [need_attrResp] at hsize
  replace hsize := le_trans hsize (show 166 + content.length ≤ maxUdpReqPacketSize by
    simp only [maxUdpReqPacketSize]
    omega)
  rw [makeAttrPkg_eq, if_pos h, Resp.packetBytes_eq]
  refine ⟨_, _, (Resp.form_sized _ (le_refl _) hsize _).checkBasicPacket
    (Resp.form_retCode _ _), ?_, rfl, rfl⟩
  exact (recovers_form (sendStrAttrHead s) _ _ rfl rfl).cmd

end Packet

section Send

variable (cipher : InvCipher) {s : Agent} (u : Unset) {b : Batch}

theorem length_pack (b : Batch) : (packStrAttrs b.nodes []).length = b.size := by
  rw [packStrAttrs_batch]
  simp [nodesBytes, Batch.size]

theorem envSendStrAttrToServer_plain (hsrv : s.dwAttrSrvIp ≠ 0 ∨ s.iCustAttrSrvPort ≠ 0)
    (henc : s.iEnableEncryptData = false) :
    envSendStrAttrToServer cipher s u b =
      some (makeAttrPkg cipher s u (packStrAttrs b.nodes []) true) := by
  have hno : ¬ (s.dwAttrSrvIp = 0 ∧ s.iCustAttrSrvPort = 0) := fun h => hsrv.elim (· h.1) (· h.2)
  rw [envSendStrAttrToServer, if_neg hno, henc]
  rfl

theorem envSendStrAttrToServer_large (hsrv : s.dwAttrSrvIp ≠ 0 ∨ s.iCustAttrSrvPort ≠ 0)
    (henc : s.iEnableEncryptData = false) (h : 1034 < b.size) :
    envSendStrAttrToServer cipher s u b = some (s.pPkg.toList.take maxAttrPkgLength) := by
  rw [envSendStrAttrToServer_plain cipher u hsrv henc, makeAttrPkg_eq, length_pack,
    if_neg (not_le.mpr h)]

theorem delivers_made (h : b.size ≤ 1034) :
    Delivers b (makeAttrPkg cipher s u (packStrAttrs b.nodes []) true) := by
  obtain ⟨p, rest, hp, hcmd, hlen, hcontent⟩ :=
    makeAttrPkg_made cipher s u (packStrAttrs b.nodes []) (by rw [length_pack]; exact h)
  refine ⟨p, hp, hcmd, b.nodes.length + 1, ?_⟩
  rw [hlen, hcontent, packStrAttrs_batch]
  exact readStrAttrs_nodes rest b.nodes [] [] (by simp)

/-- An agent that has not sent anything yet. -/
def newAgent : Agent :=
  ⟨0, false, [], [], 0, 0, 1, 0, none, 0, Vector.replicate timerDataMaxLength 0⟩

def unsetZero : Unset := ⟨Vector.replicate 16 0, Vector.replicate 38 0⟩

theorem pPkg_newAgent :
    newAgent.pPkg.toList.take maxAttrPkgLength = List.replicate maxAttrPkgLength 0 := by
  simp only [newAgent, Vector.toList_replicate, take_replicate]
  rfl

theorem checkBasicPacket_zero :
    checkBasicPacket (List.replicate maxAttrPkgLength 0) = some (.err .invalidPacket) := by
  decide +kernel

end Send

/-- **A batch of string attributes.** With a server to send to and without
encryption: whatever the buffers hold, the server accepts the packet and reads
exactly the batch, if and only if the batch takes at most 1034 bytes. For a larger
one the 1200 bytes that stood in the session buffer are sent. -/
theorem str_attr_batch_iff (cipher : InvCipher) (b : Batch) :
    ((∀ (s : Agent) (u : Unset), (s.dwAttrSrvIp ≠ 0 ∨ s.iCustAttrSrvPort ≠ 0) →
        s.iEnableEncryptData = false →
        ∃ pkt, envSendStrAttrToServer cipher s u b = some pkt ∧ Delivers b pkt) ↔
      b.size ≤ 1034) ∧
    (1034 < b.size → ∀ (s : Agent) (u : Unset), (s.dwAttrSrvIp ≠ 0 ∨ s.iCustAttrSrvPort ≠ 0) →
      s.iEnableEncryptData = false →
      envSendStrAttrToServer cipher s u b = some (s.pPkg.toList.take maxAttrPkgLength)) := by
  refine ⟨⟨fun h => ?_, fun h s u hsrv henc => ?_⟩, fun h s u hsrv henc => ?_⟩
  · obtain ⟨pkt, hsend, hdel⟩ := h newAgent unsetZero (.inl (by decide)) rfl
    by_contra hlarge
    rw [envSendStrAttrToServer_large cipher _ (.inl (by decide)) rfl (Nat.lt_of_not_le hlarge)]
      at hsend
    cases hsend
    -- the session buffer of a new agent is not a packet
    obtain ⟨p, hp, -⟩ := hdel
    rw [pPkg_newAgent, checkBasicPacket_zero] at hp
    cases hp
  · exact ⟨_, envSendStrAttrToServer_plain cipher u hsrv henc, delivers_made cipher u h⟩
  · exact envSendStrAttrToServer_large cipher u hsrv henc h

/-- Fifteen strings of 64 bytes. -/
def longBatch : Batch where
  nodes := List.replicate 15 ⟨⟨0, List.replicate 64 97, 1, 1⟩, by decide +kernel, by decide⟩
  len_le := by decide

/-- **A batch that is lost.** Fifteen strings of 64 bytes take 1155 bytes; what the
agent sends is its empty buffer. -/
theorem str_attr_batch_lost : longBatch.size = 1155 ∧
    envSendStrAttrToServer idBlockCipher.cipher newAgent unsetZero longBatch =
      some (List.replicate maxAttrPkgLength 0) ∧
    checkBasicPacket (List.replicate maxAttrPkgLength 0) = some (.err .invalidPacket) := by
  have hsize : longBatch.size = 1155 := by decide +kernel
  refine ⟨hsize, ?_, checkBasicPacket_zero⟩
  rw [envSendStrAttrToServer_large _ _ (.inl (by decide)) rfl (by decide), pPkg_newAgent]

end DesPwd.L4.StrAttrSend
