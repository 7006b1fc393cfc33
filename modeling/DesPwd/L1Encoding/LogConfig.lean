import DesPwd.L1Encoding.BasicPacket

/-!
# Log configs on the wire

The agent sends the id and the sequence number of each of its log configs in a
`ContentCheckLogConfig`; the server answers with whole configs as
`MtSLogConfig`, cut behind the last test key that is in use. The structures are
packed, numbers are in network order.

* `readConfig_bytes`: a config that was sent is read back.
* `readCheck_bytes`: so is the list of ids and sequence numbers.
-/
namespace DesPwd.L1.LogConfig

open Bytes L1.BasicPacket Option UInt32
open List hiding Vector

/-! ## Sizes -/

/-- `MAX_SLOG_TEST_KEYS_PER_CONFIG`: lib/mtagent_api_open/sv_struct.h is read
before supper_log.h, which has another one. -/
def maxTestKeys : Nat := 10
/-- `SLOG_TEST_KEY_LEN+1` -/
def keyValueLen : Nat := 21
/-- `sizeof(SLogTestKey)` -/
def testKeyLen : Nat := 22
/-- `sizeof(MtSLogConfig)` -/
def mtSLogConfigLen : Nat := 246
/-- `MAX_LOG_CONFIG_COUNT` -/
def maxLogConfigCount : Nat := 1050
/-- `sizeof(ContentCheckLogConfig)` -/
def contentCheckLen : Nat := 6
/-- `sizeof(LogConfigReq)` -/
def logConfigReqLen : Nat := 12

/-! ## Configs -/

/-- mirrors lib/mtagent_api_open/sv_struct.h:325-334 -/
structure SLogTestKey where
  bKeyType : UInt8
  szKeyValue : Vector UInt8 keyValueLen
  deriving DecidableEq

def SLogTestKey.bytes (k : SLogTestKey) : Bytes := k.bKeyType :: k.szKeyValue.toList

/-- A config, on both sides: an `SLogClientConfig` of the server, whose `dwSeq` is
`dwConfigSeq`, an `SLogConfig` of the agent, an `MtSLogConfig` in between. An
`int32_t` is its 32 bits; `stTestKeys` are the keys in use, `wTestKeyCount` of
them. -/
structure SLogConfig where
  dwSeq : UInt32
  dwCfgId : UInt32
  iAppId : UInt32
  iModuleId : UInt32
  iLogType : UInt32
  dwSpeedFreq : UInt32
  stTestKeys : List SLogTestKey
  keys_le : stTestKeys.length ≤ maxTestKeys
  deriving DecidableEq

namespace SLogConfig

def wTestKeyCount (c : SLogConfig) : UInt16 := UInt16.ofNat c.stTestKeys.length

/-- mirrors slog_mtreport_server/udp_sock.cpp:46-55 -/
def bytes (c : SLogConfig) : Bytes :=
  put32 c.dwSeq ++ (put32 c.dwCfgId ++ (put32 c.iAppId ++ (put32 c.iModuleId ++
    (put32 c.iLogType ++ (put32 c.dwSpeedFreq ++ (put16 c.wTestKeyCount ++
      c.stTestKeys.flatMap SLogTestKey.bytes))))))

end SLogConfig

def readKey : Bytes → Option SLogTestKey
  | [] => none
  | t :: b =>
    if h : keyValueLen ≤ b.length then
      some ⟨t, ⟨(b.take keyValueLen).toArray, by simp; omega⟩⟩
    else none

/-- The `memcpy` of `wTestKeyCount` keys. -/
def readKeys : Nat → Bytes → Option (List SLogTestKey)
  | 0, _ => some []
  | n + 1, b => do
    let k ← readKey b
    let ks ← readKeys n (b.drop testKeyLen)
    pure (k :: ks)

/-- `none` reads outside `b`, or copies more keys than a local config has room
for. mirrors slog_mtreport_client/mtreport_protoc.cpp:1958-1978 -/
def readConfig (b : Bytes) : Option SLogConfig := do
  let dwSeq ← rd32 b 0
  let dwCfgId ← rd32 b 4
  let iAppId ← rd32 b 8
  let iModuleId ← rd32 b 12
  let iLogType ← rd32 b 16
  let dwSpeedFreq ← rd32 b 20
  let wTestKeyCount ← rd16 b 24
  let ks ← readKeys wTestKeyCount (b.drop 26)
  if h : ks.length ≤ maxTestKeys then
    pure
      { dwSeq := ofNat dwSeq
        dwCfgId := ofNat dwCfgId
        iAppId := ofNat iAppId
        iModuleId := ofNat iModuleId
        iLogType := ofNat iLogType
        dwSpeedFreq := ofNat dwSpeedFreq
        stTestKeys := ks
        keys_le := h }
  else none

theorem length_keyBytes (k : SLogTestKey) : k.bytes.length = testKeyLen := by
  rw [SLogTestKey.bytes, length_cons, Vector.length_toList]
  rfl

theorem readKey_bytes (k : SLogTestKey) (rest : Bytes) : readKey (k.bytes ++ rest) = some k := by
  obtain ⟨t, v⟩ := k
  have hv : v.toList.length = keyValueLen := v.length_toList
  have htake : (v.toList ++ rest).take keyValueLen = v.toList := take_left' hv
  simp only [SLogTestKey.bytes, cons_append, readKey]
  rw [dif_pos (by rw [length_append]; omega)]
  congr 2
  apply Vector.toList_inj.mp
  exact htake

theorem readKeys_bytes (ks : List SLogTestKey) (rest : Bytes) :
    readKeys ks.length (ks.flatMap SLogTestKey.bytes ++ rest) = some ks := by
  induction ks with
  | nil => rfl
  | cons k ks ih =>
    have hdrop : (k.bytes ++ (ks.flatMap SLogTestKey.bytes ++ rest)).drop testKeyLen =
        ks.flatMap SLogTestKey.bytes ++ rest := by
      rw [← length_keyBytes k, drop_left]
    rw [flatMap_cons, append_assoc, length_cons, readKeys, readKey_bytes, hdrop, ih]
    rfl

theorem length_keysBytes (ks : List SLogTestKey) :
    (ks.flatMap SLogTestKey.bytes).length = testKeyLen * ks.length := by
  induction ks with
  | nil => rfl
  | cons k ks ih =>
    rw [flatMap_cons, length_append, length_keyBytes, ih, length_cons]
    simp only [testKeyLen]
    omega

theorem SLogConfig.length_bytes (c : SLogConfig) :
    c.bytes.length = 26 + testKeyLen * c.stTestKeys.length := by
  simp only [bytes, length_append, length_put32, length_put16, length_keysBytes]
  omega

theorem SLogConfig.toNat_wTestKeyCount (c : SLogConfig) :
    c.wTestKeyCount.toNat = c.stTestKeys.length := by
  have hk := c.keys_le
  simp only [maxTestKeys] at hk
  rw [wTestKeyCount, UInt16.toNat_ofNat']
  omega

theorem rd32_skip32 (n : UInt32) (b : Bytes) (i : Nat) : rd32 (put32 n ++ b) (4 + i) = rd32 b i :=
  rd32_append_right (put32 n) b i

theorem rd16_skip32 (n : UInt32) (b : Bytes) (i : Nat) : rd16 (put32 n ++ b) (4 + i) = rd16 b i :=
  rd16_append_right (put32 n) b i

theorem drop_behind (d b : Bytes) (i : Nat) : (d ++ b).drop (d.length + i) = b.drop i := by
  rw [← drop_drop, drop_left]

theorem drop_skip32 (n : UInt32) (b : Bytes) (i : Nat) : (put32 n ++ b).drop (4 + i) = b.drop i :=
  drop_behind (put32 n) b i

theorem drop_skip16 (n : UInt16) (b : Bytes) (i : Nat) : (put16 n ++ b).drop (2 + i) = b.drop i :=
  drop_behind (put16 n) b i

theorem rd32_id_bytes (c : SLogConfig) (rest : Bytes) :
    rd32 (c.bytes ++ rest) 4 = some c.dwCfgId.toNat := by
  rw [SLogConfig.bytes, append_assoc, rd32_skip32 _ _ 0, append_assoc, rd32_put32]

/-- **A config that was sent is read back**, whatever stands behind it. -/
theorem readConfig_bytes (c : SLogConfig) (rest : Bytes) :
    readConfig (c.bytes ++ rest) = some c := by
  have hbytes : c.bytes ++ rest = put32 c.dwSeq ++ (put32 c.dwCfgId ++ (put32 c.iAppId ++
      (put32 c.iModuleId ++ (put32 c.iLogType ++ (put32 c.dwSpeedFreq ++ (put16 c.wTestKeyCount ++
        (c.stTestKeys.flatMap SLogTestKey.bytes ++ rest))))))) := by
    simp [SLogConfig.bytes]
  have hkeys : readKeys c.stTestKeys.length ((c.bytes ++ rest).drop 26) = some c.stTestKeys := by
    rw [hbytes, drop_skip32 _ _ 22, drop_skip32 _ _ 18, drop_skip32 _ _ 14, drop_skip32 _ _ 10,
      drop_skip32 _ _ 6, drop_skip32 _ _ 2, drop_skip16 _ _ 0, drop_zero, readKeys_bytes]
  have hnum : rd16 (c.bytes ++ rest) 24 = some c.stTestKeys.length := by
    rw [hbytes, rd16_skip32 _ _ 20, rd16_skip32 _ _ 16, rd16_skip32 _ _ 12, rd16_skip32 _ _ 8,
      rd16_skip32 _ _ 4, rd16_skip32 _ _ 0, rd16_put16, c.toNat_wTestKeyCount]
  have h0 : rd32 (c.bytes ++ rest) 0 = some c.dwSeq.toNat := by rw [hbytes, rd32_put32]
  have h4 := rd32_id_bytes c rest
  have h8 : rd32 (c.bytes ++ rest) 8 = some c.iAppId.toNat := by
    rw [hbytes, rd32_skip32 _ _ 4, rd32_skip32 _ _ 0, rd32_put32]
  have h12 : rd32 (c.bytes ++ rest) 12 = some c.iModuleId.toNat := by
    rw [hbytes, rd32_skip32 _ _ 8, rd32_skip32 _ _ 4, rd32_skip32 _ _ 0, rd32_put32]
  have h16 : rd32 (c.bytes ++ rest) 16 = some c.iLogType.toNat := by
    rw [hbytes, rd32_skip32 _ _ 12, rd32_skip32 _ _ 8, rd32_skip32 _ _ 4, rd32_skip32 _ _ 0,
      rd32_put32]
  have h20 : rd32 (c.bytes ++ rest) 20 = some c.dwSpeedFreq.toNat := by
    rw [hbytes, rd32_skip32 _ _ 16, rd32_skip32 _ _ 12, rd32_skip32 _ _ 8, rd32_skip32 _ _ 4,
      rd32_skip32 _ _ 0, rd32_put32]
  unfold readConfig
  simp only [h0, h4, h8, h12, h16, h20, hnum, bind_eq_bind, bind_some]
  rw [hkeys, bind_some, dif_pos c.keys_le]
  simp

/-! ## The request -/

/-- mirrors slog_mtreport_client/mtreport_protoc.h:119-124 -/
structure LogConfigReq where
  dwCfgId : UInt32
  dwSeq : UInt32
  dwCfgFlag : UInt32
  deriving DecidableEq

def LogConfigReq.bytes (r : LogConfigReq) : Bytes :=
  put32 r.dwCfgId ++ (put32 r.dwSeq ++ put32 r.dwCfgFlag)

/-- A `ContentCheckLogConfig` with its list. -/
def contentCheckLogConfig (dwServerResponseTime : UInt32) (rs : List LogConfigReq) : Bytes :=
  put32 dwServerResponseTime ++ (put16 (UInt16.ofNat rs.length) ++ rs.flatMap LogConfigReq.bytes)

/-- mirrors udp_sock.cpp:1107-1116 -/
def readReqs : Nat → Bytes → Option (List LogConfigReq)
  | 0, _ => some []
  | n + 1, b => do
    let dwCfgId ← rd32 b 0
    let dwSeq ← rd32 b 4
    let dwCfgFlag ← rd32 b 8
    let rs ← readReqs n (b.drop logConfigReqLen)
    pure (⟨ofNat dwCfgId, ofNat dwSeq, ofNat dwCfgFlag⟩ :: rs)

/-- The list of a request; mirrors udp_sock.cpp:1165-1183 -/
def readCheck (content : Bytes) (wCmdContentLen : Nat) :
    Option (Except Err (List LogConfigReq)) := do
  if wCmdContentLen < contentCheckLen then pure (.error .invalidCmdContent)
  else
    let wLogConfigCount ← rd16 content 4
    if wCmdContentLen ≠ contentCheckLen + logConfigReqLen * wLogConfigCount then
      pure (.error .invalidCmdContent)
    else
      let rs ← readReqs wLogConfigCount (content.drop contentCheckLen)
      pure (.ok rs)

theorem length_reqBytes (r : LogConfigReq) : r.bytes.length = logConfigReqLen := by
  simp [LogConfigReq.bytes, logConfigReqLen]

theorem length_reqsBytes (rs : List LogConfigReq) :
    (rs.flatMap LogConfigReq.bytes).length = logConfigReqLen * rs.length := by
  induction rs with
  | nil => rfl
  | cons r rs ih =>
    rw [flatMap_cons, length_append, length_reqBytes, ih, length_cons]
    simp only [logConfigReqLen]
    omega

theorem length_contentCheck (t : UInt32) (rs : List LogConfigReq) :
    (contentCheckLogConfig t rs).length = contentCheckLen + logConfigReqLen * rs.length := by
  simp only [contentCheckLogConfig, length_append, length_put32, length_put16,
    length_reqsBytes, contentCheckLen]
  omega

theorem readReqs_bytes (rs : List LogConfigReq) (rest : Bytes) :
    readReqs rs.length (rs.flatMap LogConfigReq.bytes ++ rest) = some rs := by
  induction rs with
  | nil => rfl
  | cons r rs ih =>
    have hbytes : (r :: rs).flatMap LogConfigReq.bytes ++ rest =
        put32 r.dwCfgId ++ (put32 r.dwSeq ++ (put32 r.dwCfgFlag ++
          (rs.flatMap LogConfigReq.bytes ++ rest))) := by
      simp [LogConfigReq.bytes]
    rw [hbytes, length_cons, readReqs, rd32_put32, rd32_skip32 _ _ 0, rd32_put32,
      rd32_skip32 _ _ 4, rd32_skip32 _ _ 0, rd32_put32, logConfigReqLen, drop_skip32 _ _ 8,
      drop_skip32 _ _ 4, drop_skip32 _ _ 0, drop_zero, ih]
    simp

/-- **The request is read back**, whatever stands behind it in the packet. -/
theorem readCheck_bytes (t : UInt32) (rs : List LogConfigReq) (hlen : rs.length < 65536)
    (rest : Bytes) :
    readCheck (contentCheckLogConfig t rs ++ rest) (contentCheckLen + logConfigReqLen * rs.length) =
      some (.ok rs) := by
  have hcount : (UInt16.ofNat rs.length).toNat = rs.length := by
    rw [UInt16.toNat_ofNat']
    omega
  have hbytes : contentCheckLogConfig t rs ++ rest = put32 t ++ (put16 (UInt16.ofNat rs.length) ++
      (rs.flatMap LogConfigReq.bytes ++ rest)) := by
    simp [contentCheckLogConfig]
  have hnum : rd16 (contentCheckLogConfig t rs ++ rest) 4 = some rs.length := by
    rw [hbytes, rd16_skip32 _ _ 0, rd16_put16, hcount]
  have hdrop : (contentCheckLogConfig t rs ++ rest).drop contentCheckLen =
      rs.flatMap LogConfigReq.bytes ++ rest := by
    rw [hbytes, contentCheckLen, drop_skip32 _ _ 2, drop_skip16 _ _ 0, drop_zero]
  unfold readCheck
  rw [if_neg (by omega), hnum]
  simp only [bind_eq_bind, bind_some]
  rw [if_neg (fun h => h rfl), hdrop, readReqs_bytes]
  rfl

end DesPwd.L1.LogConfig
