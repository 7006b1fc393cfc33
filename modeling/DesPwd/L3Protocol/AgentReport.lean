import DesPwd.Core.Run
import DesPwd.L1Encoding.BasicPacket

/-!
# The signature of an agent's report

An agent reports logs and attribute values in packets whose signature is a
`MonitorCommSig`, encrypted with the shared `szAgentAccessKey`. slog_server and
slog_monitor_server open such a packet in the same way: `checkSignature` (the
two functions have one text), then `openReport`, which decrypts the content
when the flag in `m_sDecryptBuf` says so. `m_sDecryptBuf` is a member of the
socket and is never cleared.

AES is an arbitrary inverse cipher of blocks.

* `aesDecipherData_plain`: a decrypted length that is not zero and fits the
  buffer is the length of the input's own plaintext, and the plaintext is the
  front of the buffer.
* `aesDecipherData_cipher`: with a cipher that it inverts, decryption gives what
  was encrypted.
* `handleReport_authentic`: a packet with a `MT_SIGNATURE_TYPE_COMMON`
  signature leaves effects only if its own signature is authentic, and its
  content is read under the flag of that signature.
-/
namespace DesPwd.L3.AgentReport

open Bytes L1.BasicPacket Option
open List hiding Vector

/-! ## AES -/

inductive KeyLen where
  | aes128
  | aes256
  deriving DecidableEq

/-- `aes_init` and `inv_cipher`: key length, key, block of 16 bytes. -/
abbrev InvCipher := KeyLen → Bytes → Bytes → Fin 16 → UInt8

/-- mirrors lib/mtagent_api_open/aes.cpp:538-539 -/
def invBlocks (f : Bytes → Fin 16 → UInt8) : Nat → Bytes → Bytes
  | 0, _ => []
  | n + 1, b => ofFn (f (b.take 16)) ++ invBlocks f n (b.drop 16)

/-- `out` is the output buffer and `before` the byte in front of it, which is
read as the padding of an empty input; the length is a `size_t`, zero when
nothing was decrypted. `none` writes past the buffer.
mirrors aes.cpp:526-548 -/
def aesDecipherData (f : Bytes → Fin 16 → UInt8) (inp out : Bytes) (before : UInt8) :
    Option (Bytes × Nat) :=
  if inp.length % 16 ≠ 0 then some (out, 0)
  else
    let w := invBlocks f (inp.length / 16) inp
    if out.length < w.length then none
    else
      let j := (w.getLast?.getD before).toNat
      some (overwrite w out,
        if j ≤ inp.length then inp.length - j else inp.length + 18446744073709551616 - j)

/-- The plaintext of `inp`: whole blocks, without the padding that the last
byte counts. -/
def plaintext (f : Bytes → Fin 16 → UInt8) (inp : Bytes) : Option Bytes :=
  if inp.length % 16 ≠ 0 then none
  else
    let w := invBlocks f (inp.length / 16) inp
    w.getLast?.bind fun j => if j.toNat ≤ w.length then some (w.take (w.length - j.toNat)) else none

theorem length_invBlocks (f : Bytes → Fin 16 → UInt8) :
    ∀ n b, (invBlocks f n b).length = 16 * n
  | 0, _ => rfl
  | n + 1, b => by
    rw [invBlocks, length_append, length_ofFn, length_invBlocks f n]
    omega

theorem aesDecipherData_plain {f : Bytes → Fin 16 → UInt8} {inp out buf : Bytes} {before : UInt8}
    {n : Nat} (h : aesDecipherData f inp out before = some (buf, n)) (hn : n ≠ 0)
    (hmax : n < 9223372036854775808) :
    ∃ p rest, plaintext f inp = some p ∧ p.length = n ∧ buf = p ++ rest := by
  unfold aesDecipherData at h
  unfold plaintext
  by_cases hm : inp.length % 16 ≠ 0
  · rw [if_pos hm] at h
    cases h
    omega
  · rw [if_neg hm] at h ⊢
    have hw := length_invBlocks f (inp.length / 16) inp
    generalize invBlocks f (inp.length / 16) inp = w at h hw
    by_cases ho : out.length < w.length
    · simp only [if_pos ho, reduceCtorEq] at h
    simp only [if_neg ho, Option.some.injEq, Prod.mk.injEq] at h
    obtain ⟨hb, hlen⟩ := h
    rcases hj : w.getLast? with _ | j
    · -- an empty input: the byte in front of the buffer makes the length 0 or huge
      have hnil : w = [] := getLast?_eq_none_iff.mp hj
      have hbyte := before.toNat_lt
      rw [hnil, length_nil] at hw
      simp only [hj, getD_none] at hlen
      split at hlen <;> omega
    · have hbyte := j.toNat_lt
      simp only [hj, getD_some] at hlen
      have hle : j.toNat ≤ inp.length := Nat.not_lt.mp fun hgt => by
        rw [if_neg (Nat.not_le_of_lt hgt)] at hlen
        omega
      rw [if_pos hle] at hlen
      refine ⟨w.take n, w.drop n ++ out.drop w.length, ?_, ?_, ?_⟩
      · have hnw : w.length - j.toNat = n := by omega
        simp [hj, bind_some, if_pos (show j.toNat ≤ w.length by omega), hnw]
      · rw [length_take]
        omega
      · rw [← hb, overwrite, ← append_assoc, take_append_drop]

/-! ### Encryption -/

/-- A cipher of blocks with its inverse. -/
structure BlockCipher where
  cipher : InvCipher
  inv : InvCipher
  inv_cipher : ∀ k key (b : Bytes), b.length = 16 →
    ofFn (inv k key (ofFn (cipher k key b))) = b

/-- The last block: what is left of the input, and bytes that count the padding. -/
def padBlock (b : Bytes) : Bytes := b ++ replicate (16 - b.length) (UInt8.ofNat (16 - b.length))

/-- mirrors aes.cpp:502-524 -/
def aesCipherData (g : Bytes → Fin 16 → UInt8) (inp : Bytes) : Bytes :=
  invBlocks g (inp.length / 16) inp ++ ofFn (g (padBlock (inp.drop (inp.length / 16 * 16))))

theorem length_aesCipherData (g : Bytes → Fin 16 → UInt8) (inp : Bytes) :
    (aesCipherData g inp).length = 16 * (inp.length / 16 + 1) := by
  rw [aesCipherData, length_append, length_invBlocks, length_ofFn]
  omega

/-- The blocks of a ciphertext, and what stands behind them. -/
theorem invBlocks_invBlocks {f g : Bytes → Fin 16 → UInt8}
    (h : ∀ b, b.length = 16 → ofFn (f (ofFn (g b))) = b) (rest : Bytes) (m : Nat) :
    ∀ {n} {b}, 16 * n ≤ b.length →
      invBlocks f (n + m) (invBlocks g n b ++ rest) = b.take (16 * n) ++ invBlocks f m rest := by
  intro n
  induction n with
  | zero =>
    simp [invBlocks]
  | succ n ih =>
    intro b hn
    have hlen : (ofFn (g (b.take 16))).length = 16 := length_ofFn
    have htake : (ofFn (g (b.take 16)) ++ (invBlocks g n (b.drop 16) ++ rest)).take 16 =
        ofFn (g (b.take 16)) := take_left' hlen
    have hdrop : (ofFn (g (b.take 16)) ++ (invBlocks g n (b.drop 16) ++ rest)).drop 16 =
        invBlocks g n (b.drop 16) ++ rest := drop_left' hlen
    rw [show n + 1 + m = n + m + 1 by omega, invBlocks, invBlocks, append_assoc, htake, hdrop,
      h _ (by rw [length_take]; omega), ih (by rw [length_drop]; omega),
      ← append_assoc, show 16 * (n + 1) = 16 + 16 * n by omega, take_add]

/-- What was encrypted is decrypted, into a buffer that has the room. -/
theorem aesDecipherData_cipher {f g : Bytes → Fin 16 → UInt8}
    (h : ∀ b, b.length = 16 → ofFn (f (ofFn (g b))) = b) (inp out : Bytes)
    (before : UInt8) (hroom : inp.length + 16 ≤ out.length) :
    ∃ rest, aesDecipherData f (aesCipherData g inp) out before = some (inp ++ rest, inp.length) := by
  obtain ⟨tail, htail⟩ : ∃ tail, tail = inp.drop (inp.length / 16 * 16) := ⟨_, rfl⟩
  have htl : tail.length = inp.length % 16 := by
    rw [htail, length_drop]
    omega
  have hpad : (padBlock tail).length = 16 := by
    rw [padBlock, length_append, length_replicate]
    omega
  have hcut : inp.take (16 * (inp.length / 16)) ++ tail = inp := by
    rw [htail, Nat.mul_comm, take_append_drop]
  obtain ⟨pad, hp⟩ : ∃ pad, pad = replicate (16 - tail.length) (UInt8.ofNat (16 - tail.length)) :=
    ⟨_, rfl⟩
  have hw : invBlocks f (inp.length / 16 + 1) (aesCipherData g inp) = inp ++ pad := by
    have hone : invBlocks f 1 (ofFn (g (padBlock tail))) = padBlock tail := by
      have htake : (ofFn (g (padBlock tail))).take 16 = ofFn (g (padBlock tail)) :=
        take_of_length_le (Nat.le_of_eq length_ofFn)
      rw [invBlocks, invBlocks, append_nil, htake, h _ hpad]
    rw [aesCipherData, ← htail, invBlocks_invBlocks h _ 1 (by omega), hone, padBlock, ← hp,
      ← append_assoc, hcut]
  have hlast : (inp ++ pad).getLast? = some (UInt8.ofNat (16 - tail.length)) := by
    rw [hp, getLast?_append, getLast?_replicate, if_neg (by omega), some_or]
  have hbyte : (UInt8.ofNat (16 - tail.length)).toNat = 16 - tail.length := by
    rw [UInt8.toNat_ofNat']
    omega
  have hpl : pad.length = 16 - tail.length := by rw [hp, length_replicate]
  refine ⟨pad ++ out.drop (inp ++ pad).length, ?_⟩
  unfold aesDecipherData
  rw [length_aesCipherData, if_neg (by omega), Nat.mul_div_cancel_left _ (by decide), hw]
  dsimp only
  rw [if_neg (by rw [length_append]; omega), hlast, getD_some, hbyte, if_pos (by omega),
    overwrite, append_assoc, show 16 * (inp.length / 16 + 1) - (16 - tail.length) = inp.length by omega]

/-! ## The signature -/

/-- `sizeof(MonitorCommSig)` -/
def monitorCommSigLen : Nat := 25

/-- `MT_SIGNATURE_TYPE_COMMON` -/
def sigTypeCommon : Nat := 101

/-- What the check of a packet's signature needs beside the packet. -/
structure SigCtx where
  szAgentAccessKey : Bytes
  /-- the byte in front of `m_sDecryptBuf` -/
  beforeDecryptBuf : UInt8

/-- `m_sDecryptBuf` afterwards, and the error if there is one;
mirrors slog_server/udp_sock.cpp:230-257 and slog_monitor_server/udp_sock.cpp:2052-2079 -/
def checkSignature (aes : InvCipher) (c : SigCtx) (decryptBuf : Bytes) (p : Packet) :
    Option (Bytes × Option Err) := do
  if p.bSigType = sigTypeCommon then
    let (buf, iDecSigLen) ← aesDecipherData (aes .aes128 c.szAgentAccessKey) p.sSigValue decryptBuf
      c.beforeDecryptBuf
    if iDecSigLen ≠ monitorCommSigLen then pure (buf, some .decryptFailed)
    else if (← rd32 buf 0) ≠ p.dwSeq then pure (buf, some .invalidSignatureInfo)
    else pure (buf, none)
  else pure (decryptBuf, none)

/-- The packet's own signature decrypts to a `MonitorCommSig` with the packet's
sequence number and the encryption flag `flag`. -/
def Authentic (aes : InvCipher) (key : Bytes) (p : Packet) (flag : Nat) : Prop :=
  ∃ sig, plaintext (aes .aes128 key) p.sSigValue = some sig ∧ sig.length = monitorCommSigLen ∧
    rd32 sig 0 = some p.dwSeq ∧ rd8 sig 8 = some flag

theorem of_ite_ne {α β : Type} {a b : α} [Decidable (a ≠ b)] {x y z : β}
    (h : (if a ≠ b then x else y) = z) (hx : x ≠ z) : a = b ∧ y = z := by
  split at h
  · exact absurd h hx
  · exact ⟨Classical.not_not.mp ‹_›, h⟩

theorem checkSignature_authentic {aes : InvCipher} {c : SigCtx} {decryptBuf buf : Bytes}
    {p : Packet} {flag : Nat} (ht : p.bSigType = sigTypeCommon)
    (h : checkSignature aes c decryptBuf p = some (buf, none)) (hf : rd8 buf 8 = some flag) :
    Authentic aes c.szAgentAccessKey p flag := by
  simp only [checkSignature, if_pos ht, bind_eq_bind, bind_eq_some_iff] at h
  obtain ⟨⟨buf', n⟩, hd, h⟩ := h
  obtain ⟨rfl, h1⟩ := of_ite_ne h (by simp)
  obtain ⟨seq, hseq, h2⟩ := bind_eq_some_iff.mp h1
  obtain ⟨rfl, h3⟩ := of_ite_ne h2 (by simp)
  cases h3
  obtain ⟨sig, rest, hp, hl, rfl⟩ := aesDecipherData_plain hd (by decide) (by decide)
  rw [rd32_append (by rw [hl]; decide)] at hseq
  rw [rd8_append (by rw [hl]; decide)] at hf
  exact ⟨sig, hp, hl, hseq, hf⟩

/-! ## Opening a report -/

/-- `TLV_MONI_COMM_INFO` -/
def tlvMoniCommInfo : Nat := 204

/-- `sizeof(TlvMoniCommInfo)` -/
def tlvMoniCommInfoLen : Nat := 52

structure Machine where
  id : Int
  sRandKey : Bytes

/-- What a server's tables and buffers hold when a packet arrives; `sTmpBuf` is
the handler's static buffer of `n` bytes as earlier packets left it. -/
structure Ctx (n : Nat) extends SigCtx where
  getMachineInfo : Int → Option Machine
  sTmpBuf : Vector UInt8 n
  /-- the byte in front of `sTmpBuf` -/
  beforeTmpBuf : UInt8

/-- A report whose signature passed: the content, under the flag `flag`. -/
structure Report where
  machine : Machine
  content : Bytes
  wCmdContentLen : Nat
  flag : Nat

/-- mirrors slog_server/udp_sock.cpp:477-508 and slog_monitor_server/udp_sock.cpp:2177-2210 -/
def openReport {n : Nat} (aes : InvCipher) (c : Ctx n) (decryptBuf : Bytes) (p : Packet) :
    Option (Bytes × Except Err Report) := do
  match ← getWTlvByType2 tlvMoniCommInfo p.body with
  | none => pure (decryptBuf, .error .checkTlv)
  | some tlv =>
    if tlv.wLen ≠ tlvMoniCommInfoLen then pure (decryptBuf, .error .checkTlv)
    else
      let iMachineId := toS32 (← rd32 tlv.sValue 4)
      match c.getMachineInfo iMachineId with
      | none => pure (decryptBuf, .error .invalidPacket)
      | some m =>
        match ← checkSignature aes c.toSigCtx decryptBuf p with
        | (buf, some e) => pure (buf, .error e)
        | (buf, none) =>
          -- pcommSig->bEnableEncryptData, from whatever m_sDecryptBuf holds now
          let flag ← rd8 buf 8
          if flag = 0 then pure (buf, .ok ⟨m, p.content, p.wCmdContentLen, flag⟩)
          else
            let (tmp, iDecSigLen) ← aesDecipherData (aes .aes128 m.sRandKey)
              (p.content.take p.wCmdContentLen) c.sTmpBuf.toList c.beforeTmpBuf
            pure (buf, .ok ⟨m, tmp, iDecSigLen % 65536, flag⟩)

/-- The flag of an opened report is the flag of the packet's own signature. -/
theorem openReport_authentic {n : Nat} {aes : InvCipher} {c : Ctx n} {decryptBuf buf : Bytes}
    {p : Packet} {r : Report} (ht : p.bSigType = sigTypeCommon)
    (h : openReport aes c decryptBuf p = some (buf, .ok r)) :
    Authentic aes c.szAgentAccessKey p r.flag := by
  simp only [openReport, bind_eq_bind, bind_eq_some_iff] at h
  obtain ⟨_ | tlv, -, h⟩ := h
  · cases h
  obtain ⟨-, h⟩ := of_ite_ne h (by simp)
  obtain ⟨id, -, h⟩ := bind_eq_some_iff.mp h
  rcases hm : c.getMachineInfo (toS32 id) with _ | m
  · simp only [hm] at h
    cases h
  simp only [hm, bind_eq_some_iff] at h
  obtain ⟨⟨buf', _ | e⟩, hc, h⟩ := h
  · simp only [bind_eq_some_iff] at h
    obtain ⟨flag, hf, h⟩ := h
    have hauth := checkSignature_authentic ht hc hf
    split at h
    · cases h
      exact hauth
    · obtain ⟨d, -, h⟩ := bind_eq_some_iff.mp h
      cases h
      exact hauth
  · cases h

/-! ## The socket -/

/-- What a server did for one packet: `flag` is the flag its content was read
under, if it came to that, and `effects` what was written. -/
structure Handled (E : Type) where
  packet : Packet
  key : Bytes
  flag : Option Nat
  effects : List E
  ack : Option Err

/-- `m_sDecryptBuf` of the socket, and the packets handled so far. -/
structure Sock (E : Type) where
  m_sDecryptBuf : Bytes
  handled : List (Handled E)

/-- Whatever was written because of the packet, its own signature allows. -/
def Handled.IsAuthentic {E : Type} (aes : InvCipher) (h : Handled E) : Prop :=
  h.effects ≠ [] → ∃ flag, h.flag = some flag ∧ Authentic aes h.key h.packet flag

def Sock.AllAuthentic {E : Type} (aes : InvCipher) (s : Sock E) : Prop :=
  ∀ h ∈ s.handled, h.IsAuthentic aes

/-- A packet that is answered without a look at its signature. -/
def Sock.refuse {E : Type} (s : Sock E) (key : Bytes) (p : Packet) (e : Err) : Sock E :=
  { s with handled := s.handled ++ [⟨p, key, none, [], some e⟩] }

/-- The frame of both handlers; `work` is the loop over the content. -/
def handleReport {E : Type} {n : Nat} (aes : InvCipher) (c : Ctx n) (s : Sock E) (p : Packet)
    (work : Report → Option (List E × Option Err)) : Option (Sock E) := do
  match ← openReport aes c s.m_sDecryptBuf p with
  | (buf, .error e) => pure (Sock.refuse ⟨buf, s.handled⟩ c.szAgentAccessKey p e)
  | (buf, .ok r) =>
    let (es, ack) ← work r
    pure ⟨buf, s.handled ++ [⟨p, c.szAgentAccessKey, some r.flag, es, ack⟩]⟩

section
variable {E : Type} {n : Nat} {aes : InvCipher} {s s' : Sock E} {p : Packet}

variable (hs : s.AllAuthentic aes)
include hs

theorem Sock.AllAuthentic.add {h : Handled E} {buf : Bytes}
    (hh : h.IsAuthentic aes) : Sock.AllAuthentic aes ⟨buf, s.handled ++ [h]⟩ := by
  intro x hx
  rcases mem_append.mp hx with hx | hx
  · exact hs x hx
  · rw [mem_singleton.mp hx]
    exact hh

theorem Sock.AllAuthentic.refuse {key : Bytes} {e : Err} : (s.refuse key p e).AllAuthentic aes :=
  hs.add fun h => absurd rfl h

theorem handleReport_authentic {c : Ctx n} {work : Report → Option (List E × Option Err)} (ht : p.bSigType = sigTypeCommon)
    (h : handleReport aes c s p work = some s') : s'.AllAuthentic aes := by
  simp only [handleReport, bind_eq_bind, bind_eq_some_iff] at h
  obtain ⟨⟨buf, e | r⟩, ho, h⟩ := h
  · cases h
    exact Sock.AllAuthentic.refuse hs
  · simp only [bind_eq_some_iff] at h
    obtain ⟨⟨es, ack⟩, -, h⟩ := h
    cases h
    exact hs.add fun _ => ⟨r.flag, rfl, openReport_authentic ht ho⟩

/-- The commands of a server: those of another handler, and those that it refuses. -/
theorem command_authentic {c : Ctx n} {work : Report → Option (List E × Option Err)}
    {cgi other : Prop} [Decidable cgi] [Decidable other] {key : Bytes} {e : Err} (ht : ¬ other → p.bSigType = sigTypeCommon)
    (h : (if cgi then some s else if other then some (s.refuse key p e)
      else handleReport aes c s p work) = some s') : s'.AllAuthentic aes := by
  split at h
  · cases h
    exact hs
  split at h
  · cases h
    exact hs.refuse
  · exact handleReport_authentic hs (ht ‹_›) h

end

/-! ## Packets of an agent -/

def be16 (n : Nat) : Bytes := [UInt8.ofNat (n / 256), UInt8.ofNat n]

def be32 (n : Nat) : Bytes := be16 (n / 65536) ++ be16 n

/-- The body of an agent's packet: one TLV, with the machine's id. -/
def commInfoBody (iMachineId : Nat) : Bytes :=
  [1] ++ be16 tlvMoniCommInfo ++ be16 tlvMoniCommInfoLen ++ be32 0 ++ be32 iMachineId ++
    replicate 44 0

/-- A packet of an agent, in version 1. -/
def agentPacket (dwCmd dwSeq : Nat) (bSigType : UInt8) (sig content body : Bytes) : Bytes :=
  let toBody := 1 + reqPkgHeadLen + tSignatureLen + sig.length + content.length
  [UInt8.ofNat spkg] ++ be32 dwCmd ++ be32 dwSeq ++ be16 (toBody + body.length + 1) ++
    be16 toBody ++ [0, 0] ++ be16 1 ++ replicate 52 0 ++ [bSigType] ++ be16 sig.length ++ sig ++ content ++
    body ++ [UInt8.ofNat epkg]

/-- A `MonitorCommSig` with its padding, for a cipher that is the identity. -/
def plainSig (dwSeq dwCmd : Nat) (bEnableEncryptData : UInt8) : Bytes :=
  be32 dwSeq ++ be32 dwCmd ++ [bEnableEncryptData] ++ replicate 16 0 ++ replicate 7 7

/-- The identity as a cipher. -/
def idCipher : InvCipher := fun _ _ b i => b.getD i 0

theorem ofFn_idCipher {b : Bytes} (h : b.length = 16) (k : KeyLen) (key : Bytes) :
    ofFn (idCipher k key b) = b := by
  apply ext_getElem
  · rw [length_ofFn, h]
  · intro i hi hi'
    rw [List.getElem_ofFn, idCipher, getD_eq_getElem?_getD, getElem?_eq_getElem hi', getD_some]

def idBlockCipher : BlockCipher where
  cipher := idCipher
  inv := idCipher
  inv_cipher k key b h := by rw [ofFn_idCipher h, ofFn_idCipher h]

end DesPwd.L3.AgentReport
