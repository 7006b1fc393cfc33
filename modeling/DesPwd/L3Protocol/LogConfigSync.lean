import DesPwd.Core.BinSearch
import DesPwd.Core.TableSync
import DesPwd.L1Encoding.LogConfig
import DesPwd.L1Encoding.PacketMake
import DesPwd.L3Protocol.AgentReport

/-!
# The sync of the log configs

The agent keeps a table of log configs, sorted by id, with room for
`MAX_LOG_CONFIG_COUNT`. From time to time it sends the ids and sequence numbers
to slog_mtreport_server, which answers with TLVs: configs that are new or have
another sequence number, in the order of its own list, and ids to delete behind
them. The answer has 1200 bytes, so that one round may not do it all.

The server walks its list and stops at the first config that does not fit; it
comes to the deletions only if all configs did. The agent applies the TLVs one by
one and leaves the loop at a new config for which its table has no room. The
deletions that would make room come behind it, so the table stays as it is for
good when the ids of both sides together are more than the table has room for.

After a deletion the agent writes a log line with `pcfg->dwCfgId`. `pcfg` is the
last config of the answer; in an answer with nothing but deletions it is `NULL`,
and the agent crashes when the line is written.

* `setLogConfigCheckInfo_eq`: the answer is the front part of the changes that
  fits (`Core.TableSync`).
* `applyChanges_applied`: what the agent does with it.
* `config_sync`: the rounds lead to the list of the server, each with progress,
  exactly if neither happens.
* `config_sync_stuck`: a full table and a server with one new config.
* `agreed_stays`: equal tables stay.

Source files without a directory are in `slog_mtreport_server/`.
-/
namespace DesPwd.L3.LogConfigSync

open Run Bytes BinSearch TableSync L1.BasicPacket UInt32
  DesPwd.L1.PacketForm DesPwd.L1.PacketMake DesPwd.L1.LogConfig DesPwd.L3.AgentReport
open List hiding Vector
open SLogConfig (dwCfgId)
open Option (bind_eq_bind bind_some)

/-! ## The server -/

/-- `TLV_MONI_CONFIG_ADD` -/
def tlvMoniConfigAdd : UInt16 := 205
/-- `TLV_MONI_CONFIG_MOD` -/
def tlvMoniConfigMod : UInt16 := 206
/-- `TLV_MONI_CONFIG_DEL` -/
def tlvMoniConfigDel : UInt16 := 207
/-- `sizeof(sRespBuf)` -/
def respBufLen : Nat := 1200
/-- `MONI_CONFIG_FLAG_CHECKED` -/
def flagChecked : UInt32 := 2

/-- `iTmpLen` for a config; mirrors udp_sock.cpp:1045-1046 -/
def configTlvLen (c : SLogConfig) : Nat :=
  twTlvLen + mtSLogConfigLen - testKeyLen * maxTestKeys + c.stTestKeys.length * testKeyLen

theorem length_config_lt (c : SLogConfig) : c.bytes.length < 65536 := by
  have := c.keys_le
  simp only [maxTestKeys] at this
  rw [c.length_bytes, testKeyLen]
  omega

def configTlv (wType : UInt16) (c : SLogConfig) : WTlv := ⟨wType, c.bytes, length_config_lt c⟩

def delTlv (dwCfgId : UInt32) : WTlv where
  wType := tlvMoniConfigDel
  sValue := put32 dwCfgId
  len_lt := by rw [length_put32]; decide

/-- The answer so far, with the requests and their flags. -/
structure Answer where
  reqs : List LogConfigReq
  tlvs : List WTlv
  iUseBufLen : Nat

/-- `SetWTlv`, which returns the length of the TLV. -/
def Answer.setWTlv (a : Answer) (t : WTlv) : Answer :=
  { a with tlvs := a.tlvs ++ [t], iUseBufLen := a.iUseBufLen + t.bytes.length }

/-- The inner loop over the requests: the one with the id, which is marked.
mirrors udp_sock.cpp:1036-1041 -/
def markReq (dwCfgId : UInt32) : List LogConfigReq → Option (LogConfigReq × List LogConfigReq)
  | [] => none
  | r :: rs =>
    if dwCfgId = r.dwCfgId then
      some (r, { r with dwCfgFlag := r.dwCfgFlag ||| flagChecked } :: rs)
    else (markReq dwCfgId rs).map fun x => (x.1, r :: x.2)

/-- The walk over the configs of the server, and `iTmpLen`, which is not 0 if the
buffer ends it. mirrors udp_sock.cpp:1022-1097 -/
def innerDealLogConfigCheck : List SLogConfig → Answer → Answer × Nat
  | [], a => (a, 0)
  | c :: cs, a =>
    match markReq c.dwCfgId a.reqs with
    | some (r, reqs) =>
      let a := { a with reqs := reqs }
      if c.dwSeq ≠ r.dwSeq then
        if respBufLen < a.iUseBufLen + configTlvLen c then (a, configTlvLen c)
        else innerDealLogConfigCheck cs (a.setWTlv (configTlv tlvMoniConfigMod c))
      else innerDealLogConfigCheck cs a
    | none =>
      if respBufLen < a.iUseBufLen + configTlvLen c then (a, configTlvLen c)
      else innerDealLogConfigCheck cs (a.setWTlv (configTlv tlvMoniConfigAdd c))

/-- The requests that were not marked; mirrors
udp_sock.cpp:1127-1143 -/
def delLoop : List LogConfigReq → Answer → Answer
  | [], a => a
  | r :: rs, a =>
    if r.dwCfgFlag &&& flagChecked ≠ 0 then delLoop rs a
    else if respBufLen < a.iUseBufLen + (4 + twTlvLen) then a
    else delLoop rs (a.setWTlv (delTlv r.dwCfgId))

/-- `CLEAR_BIT(dwCfgFlag, MONI_CONFIG_FLAG_CHECKED)` -/
def clearChecked (r : LogConfigReq) : LogConfigReq :=
  { r with dwCfgFlag := r.dwCfgFlag &&& ~~~flagChecked }

/-- mirrors udp_sock.cpp:1099-1145 -/
def setLogConfigCheckInfo (S : List SLogConfig) (rs : List LogConfigReq) : Bytes :=
  let r := innerDealLogConfigCheck S ⟨rs.map clearChecked, [], tPkgBodyLen⟩
  let a := if r.2 = 0 then delLoop r.1.reqs r.1 else r.1
  UInt8.ofNat a.tlvs.length :: tlvBytes a.tlvs

/-- Server and agent after the hello. -/
structure Link where
  aes : BlockCipher
  sRandKey : Bytes
  bEnableEncryptData : Bool

/-- mirrors udp_sock.cpp:1147-1160; `sContentBuf` has the
room. -/
def Link.encrypt (l : Link) (body : Bytes) : Bytes :=
  if l.bEnableEncryptData then aesCipherData (l.aes.cipher .aes128 l.sRandKey) body else body

/-! ## The agent -/

/-- `sizeof(sCmdContentBuf)` -/
def contentBufLen : Nat := 3072

/-- What the agent meets in one round: whether the log line of the `k`-th TLV is
written, the static buffer with the byte in front of it, the time it reports. -/
structure Env where
  logged : Nat → Bool
  sCmdContentBuf : Vector UInt8 contentBufLen
  before : UInt8
  dwServerResponseTime : UInt32

/-- The TLVs of an answer; mirrors slog_mtreport_client/mtreport_protoc.cpp:1938-1951 -/
def Link.decrypt (l : Link) (e : Env) (content : Bytes) : Option Bytes :=
  if l.bEnableEncryptData then do
    let (buf, iDecSigLen) ← aesDecipherData (l.aes.inv .aes128 l.sRandKey) content
      e.sCmdContentBuf.toList e.before
    pure (buf.take iDecSigLen)
  else some content

/-- mirrors mtreport_protoc.cpp:1077-1084 -/
def cmpCfgId (dwCfgId : UInt32) (b : SLogConfig) : Int :=
  if b.dwCfgId < dwCfgId then 1 else if dwCfgId < b.dwCfgId then -1 else 0

def cmpSLogConfig (a b : SLogConfig) : Int := cmpCfgId a.dwCfgId b

inductive Flow where
  /-- the next TLV, with `pcfg != NULL` and the table -/
  | next (pcfg : Bool) (t : List SLogConfig)
  /-- the `break` out of the loop -/
  | stop (t : List SLogConfig)

/-- One TLV; `none` is a read of `pcfg` that is `NULL`, or one outside the answer.
mirrors mtreport_protoc.cpp:1989-2032 -/
def applyTlv (logged pcfg : Bool) (t : List SLogConfig) (tlv : Bytes) : Option Flow := do
  let wType ← rd16 tlv 0
  if wType = tlvMoniConfigAdd.toNat then
    if maxLogConfigCount ≤ t.length then pure (.stop t)
    else
      let c ← readConfig (tlv.drop twTlvLen)
      pure (.next true (qsort cmpSLogConfig (t ++ [c])))
  else if wType = tlvMoniConfigMod.toNat then
    let dwCfgId ← rd32 (tlv.drop twTlvLen) 4
    match bsearch (cmpCfgId (ofNat dwCfgId)) t with
    | none => pure (.next true t)
    | some i =>
      let c ← readConfig (tlv.drop twTlvLen)
      pure (.next true (t.set i c))
  else
    let dwCfgId ← rd32 (tlv.drop twTlvLen) 0
    -- either way a log line with `pcfg->dwCfgId` follows
    match bsearch (cmpCfgId (ofNat dwCfgId)) t with
    | none => if !pcfg && logged then none else pure (.next pcfg t)
    | some i => if !pcfg && logged then none else pure (.next pcfg (t.eraseIdx i))

/-- The loop over the TLVs, the next one is number `k`. -/
def applyLoop (logged : Nat → Bool) (body : Bytes) :
    Nat → Nat → Bool → List SLogConfig → Option (List SLogConfig)
  | 0, _, _, t => some t
  | fuel + 1, k, pcfg, t => do
    match ← getWTlvType2List body k with
    | none => pure t
    | some (tlv, _) =>
      match ← applyTlv (logged k) pcfg t tlv with
      | .stop t => pure t
      | .next pcfg t => applyLoop logged body fuel (k + 1) pcfg t

/-- The table afterwards; an answer has less than 256 TLVs.
mirrors mtreport_protoc.cpp:1931-2036 -/
def dealRespCheckLogConfig (l : Link) (e : Env) (content : Bytes) (t : List SLogConfig) :
    Option (List SLogConfig) := do
  let body ← l.decrypt e content
  if !(← checkPkgBody body) then pure t
  else applyLoop e.logged body 256 0 false t

/-! ## A round -/

/-- What the agent sends of a config. -/
def reqOf (c : SLogConfig) : LogConfigReq := ⟨c.dwCfgId, c.dwSeq, 0⟩

def round (l : Link) (S : List SLogConfig) (t : List SLogConfig) (e : Env) :
    Option (List SLogConfig) := do
  let content := contentCheckLogConfig e.dwServerResponseTime (t.map reqOf)
  match ← readCheck content content.length with
  | .error _ => pure t
  | .ok rs => dealRespCheckLogConfig l e (l.encrypt (setLogConfigCheckInfo S rs)) t

/-! ## The changes in an answer -/

abbrev CfgChange := Change UInt32 SLogConfig

def tlvOf : CfgChange → WTlv
  | .add c => configTlv tlvMoniConfigAdd c
  | .mod c => configTlv tlvMoniConfigMod c
  | .del id => delTlv id

def tlvLen (c : CfgChange) : Nat := (tlvOf c).bytes.length

/-- The changes that an answer to the table `t` has. -/
def sent (S t : List SLogConfig) : List CfgChange :=
  fit tlvLen respBufLen tPkgBodyLen (changes dwCfgId S t)

/-- For equal ids equal sequence numbers mean equal content. -/
def SeqOk (S t : List SLogConfig) : Prop :=
  ∀ a ∈ S, ∀ b ∈ t, a.dwCfgId = b.dwCfgId → a.dwSeq = b.dwSeq → a = b

instance (S t : List SLogConfig) : Decidable (SeqOk S t) :=
  inferInstanceAs (Decidable (∀ a ∈ S, ∀ b ∈ t, a.dwCfgId = b.dwCfgId → a.dwSeq = b.dwSeq → a = b))

theorem length_configTlv (w : UInt16) (c : SLogConfig) :
    (configTlv w c).bytes.length = configTlvLen c := by
  rw [configTlvLen]
  show c.bytes.length + twTlvLen = _
  rw [c.length_bytes]
  simp only [mtSLogConfigLen, testKeyLen, maxTestKeys]
  omega

theorem length_delTlv (id : UInt32) : (delTlv id).bytes.length = 4 + twTlvLen := by
  rfl

theorem configTlvLen_bounds (c : SLogConfig) :
    8 ≤ configTlvLen c ∧ tPkgBodyLen + configTlvLen c ≤ respBufLen := by
  have hk := c.keys_le
  simp only [configTlvLen, twTlvLen, mtSLogConfigLen, testKeyLen, maxTestKeys, tPkgBodyLen,
    respBufLen] at hk ⊢
  omega

/-- Every change fits an answer of its own, and takes a part of it. -/
theorem tlvLen_bounds (c : CfgChange) : 8 ≤ tlvLen c ∧ tPkgBodyLen + tlvLen c ≤ respBufLen := by
  cases c with
  | add c => rw [tlvLen, tlvOf, length_configTlv]; exact configTlvLen_bounds c
  | mod c => rw [tlvLen, tlvOf, length_configTlv]; exact configTlvLen_bounds c
  | del id => rw [tlvLen, tlvOf, length_delTlv]; decide

section Server

variable {S t : List SLogConfig}

/-- The requests of the table, those with an id of `marked` checked. -/
def reqs (t : List SLogConfig) (marked : List UInt32) : List LogConfigReq :=
  t.map fun c => ⟨c.dwCfgId, c.dwSeq, if c.dwCfgId ∈ marked then flagChecked else 0⟩

theorem reqs_cons (c : SLogConfig) (t : List SLogConfig) (marked : List UInt32) :
    reqs (c :: t) marked =
      ⟨c.dwCfgId, c.dwSeq, if c.dwCfgId ∈ marked then flagChecked else 0⟩ :: reqs t marked := rfl

theorem reqs_mark_other {id : UInt32} (marked : List UInt32) (h : id ∉ t.map dwCfgId) :
    reqs t (id :: marked) = reqs t marked := by
  apply map_congr_left
  intro c hc
  have hne : c.dwCfgId ≠ id := fun he => h (he ▸ mem_map_of_mem hc)
  simp [hne]

theorem markReq_reqs (id : UInt32) (marked : List UInt32) :
    ∀ {t}, (t.map dwCfgId).Nodup →
      match look dwCfgId t id with
      | none => markReq id (reqs t marked) = none
      | some b => ∃ r, markReq id (reqs t marked) = some (r, reqs t (id :: marked)) ∧
          r.dwSeq = b.dwSeq := by
  intro t
  induction t with
  | nil => exact fun _ => rfl
  | cons c t ih =>
    intro hnd
    rw [map_cons, nodup_cons] at hnd
    rw [reqs_cons, markReq]
    by_cases hid : id = c.dwCfgId
    · subst hid
      have hlook : look dwCfgId (c :: t) c.dwCfgId = some c :=
        find?_cons_of_pos (by simp)
      have hflag : (if c.dwCfgId ∈ marked then flagChecked else 0) ||| flagChecked = flagChecked := by
        split <;> decide
      rw [hlook, if_pos rfl]
      refine ⟨⟨c.dwCfgId, c.dwSeq, if c.dwCfgId ∈ marked then flagChecked else 0⟩, ?_, rfl⟩
      rw [reqs_cons, if_pos mem_cons_self, reqs_mark_other marked hnd.1, hflag]
    · have hih := ih hnd.2
      rw [look_cons_of_ne hid, if_neg hid]
      cases hl : look dwCfgId t id with
      | none =>
        rw [hl] at hih
        rw [hih]
        rfl
      | some b =>
        rw [hl] at hih
        obtain ⟨r, hr, hseq⟩ := hih
        refine ⟨r, ?_, hseq⟩
        have hmem : c.dwCfgId ∈ id :: marked ↔ c.dwCfgId ∈ marked := by
          simp [Ne.symm hid]
        rw [hr, reqs_cons]
        simp [hmem]

/-- The walk over the ids `ids`, which have the changes `us`, has come to `r`: what
fits of `us` was added to the answer `ts`, and `ids` are marked if all did. -/
structure Walk (t : List SLogConfig) (us : List CfgChange) (ids marked : List UInt32)
    (ts : List WTlv) (used : Nat) (r : Answer × Nat) : Prop where
  tlvs : r.1.tlvs = ts ++ (fit tlvLen respBufLen used us).map tlvOf
  len : r.1.iUseBufLen = used + ((fit tlvLen respBufLen used us).map tlvLen).sum
  tmp : r.2 = 0 ↔ fit tlvLen respBufLen used us = us
  marks : r.2 = 0 → ∃ marked', r.1.reqs = reqs t marked' ∧ ∀ id ∈ t.map dwCfgId,
    (id ∈ marked' ↔ id ∈ marked ∨ id ∈ ids)

section Walk

variable {id : UInt32} {us : List CfgChange} {ids : List UInt32} {ch : CfgChange}
  {marked marked1 : List UInt32} {ts : List WTlv} {used : Nat} {r : Answer × Nat}

theorem Walk.nil (t : List SLogConfig) (marked : List UInt32) (ts : List WTlv) (used : Nat) :
    Walk t [] [] marked ts used (⟨reqs t marked, ts, used⟩, 0) where
  tlvs := by simp [fit]
  len := by simp [fit]
  tmp := by simp [fit]
  marks _ := ⟨marked, rfl, by simp⟩

theorem Walk.cut (hlt : respBufLen < used + tlvLen ch) (rs : List LogConfigReq) :
    Walk t (ch :: us) ids marked ts used (⟨rs, ts, used⟩, tlvLen ch) := by
  have hpos := (tlvLen_bounds ch).1
  have hfit : fit tlvLen respBufLen used (ch :: us) = [] := by rw [fit, if_pos hlt]
  constructor
  · rw [hfit, map_nil, append_nil]
  · rw [hfit, map_nil, sum_nil, Nat.add_zero]
  · rw [hfit]
    exact ⟨fun h => by omega, fun h => by cases h⟩
  · exact fun h => by omega

theorem Walk.skip (h : Walk t us ids marked1 ts used r)
    (hm : ∀ id' ∈ t.map dwCfgId, (id' ∈ marked1 ↔ id' ∈ marked ∨ id' = id)) :
    Walk t us (id :: ids) marked ts used r := by
  refine ⟨h.tlvs, h.len, h.tmp, fun h0 => ?_⟩
  obtain ⟨marked', hreqs, hmem⟩ := h.marks h0
  refine ⟨marked', hreqs, fun id' hid => ?_⟩
  rw [hmem id' hid, hm id' hid, mem_cons, or_assoc]

theorem Walk.push (h : Walk t us ids marked (ts ++ [tlvOf ch]) (used + tlvLen ch) r)
    (hle : ¬ respBufLen < used + tlvLen ch) : Walk t (ch :: us) ids marked ts used r := by
  have hfit : fit tlvLen respBufLen used (ch :: us) =
      ch :: fit tlvLen respBufLen (used + tlvLen ch) us := by
    rw [fit, if_neg hle]
  refine ⟨?_, ?_, ?_, h.marks⟩
  · rw [hfit, h.tlvs, append_assoc]
    rfl
  · rw [hfit, h.len, map_cons, sum_cons, Nat.add_assoc]
  · rw [hfit, h.tmp, cons_inj_right]

end Walk

/-- The walk over the list of the server, one case per branch. -/
theorem innerDealLogConfigCheck_walk (ht : (t.map dwCfgId).Nodup) :
    ∀ cs marked ts used, SeqOk cs t →
      Walk t (ups dwCfgId cs t) (cs.map dwCfgId) marked ts used
        (innerDealLogConfigCheck cs ⟨reqs t marked, ts, used⟩) := by
  intro cs
  induction cs with
  | nil => exact fun _ _ _ _ => .nil t _ _ _
  | cons c cs ih =>
    intro marked ts used hseq
    have hseq' : SeqOk cs t := fun a ha => hseq a (mem_cons_of_mem _ ha)
    have hmark := markReq_reqs c.dwCfgId marked ht
    rw [innerDealLogConfigCheck, ups]
    cases hl : look dwCfgId t c.dwCfgId with
    | none =>
      rw [hl] at hmark
      have hlen : tlvLen (.add c) = configTlvLen c := length_configTlv _ c
      rw [hmark, filterMap_cons_some (by rw [up, hl])]
      dsimp only
      rw [← hlen]
      split
      · rename_i hlt
        exact .cut hlt _
      · rename_i hle
        refine ((ih _ _ _ hseq').push hle).skip fun id hid => ⟨.inl, fun h => ?_⟩
        exact h.resolve_right fun he => look_eq_none.mp hl (he ▸ hid)
    | some b =>
      rw [hl] at hmark
      obtain ⟨r, hr, hrseq⟩ := hmark
      have hm : ∀ id ∈ t.map dwCfgId,
          (id ∈ c.dwCfgId :: marked ↔ id ∈ marked ∨ id = c.dwCfgId) := fun id _ => by
        rw [mem_cons, or_comm]
      rw [hr]
      dsimp only
      rw [hrseq]
      split
      · rename_i hne
        have hup : up dwCfgId t c = some (.mod c) := by
          simp only [up, hl]
          exact if_neg fun (he : c = b) => hne (by rw [he])
        have hlen : tlvLen (.mod c) = configTlvLen c := length_configTlv _ c
        rw [← hlen, filterMap_cons_some hup]
        split
        · rename_i hlt
          exact .cut hlt _
        · rename_i hle
          exact ((ih _ _ _ hseq').push hle).skip hm
      · rename_i hne
        have hup : up dwCfgId t c = none := by
          simp only [up, hl]
          exact if_pos (hseq c mem_cons_self b (mem_of_look hl) (key_of_look hl).symm
            (not_not.mp hne))
        rw [filterMap_cons_none hup]
        exact (ih _ _ _ hseq').skip hm

/-- The deletions: the ids of the table that are not marked. -/
theorem delLoop_tlvs (marked : List UInt32) :
    ∀ t a, (delLoop (reqs t marked) a).tlvs = a.tlvs ++
      (fit tlvLen respBufLen a.iUseBufLen
        ((t.filter fun c => c.dwCfgId ∉ marked).map fun c => (.del c.dwCfgId : CfgChange))).map
          tlvOf := by
  intro t
  induction t with
  | nil => simp [reqs, delLoop, fit]
  | cons c t ih =>
    intro a
    rw [reqs_cons, delLoop]
    by_cases hc : c.dwCfgId ∈ marked
    · rw [if_pos (by dsimp only; rw [if_pos hc]; decide), ih, filter_cons_of_neg (by simpa using hc)]
    have hlen : tlvLen (.del c.dwCfgId) = 4 + twTlvLen := length_delTlv _
    rw [if_neg (by dsimp only; rw [if_neg hc]; decide), filter_cons_of_pos (by simpa using hc),
      map_cons, fit, hlen]
    split
    · simp
    · rw [ih, Answer.setWTlv, append_assoc]
      rfl

/-- **The answer of the server** is the front part of the changes that fits. -/
theorem setLogConfigCheckInfo_eq (ht : (t.map dwCfgId).Nodup) (hseq : SeqOk S t) :
    setLogConfigCheckInfo S (t.map reqOf) =
      UInt8.ofNat (sent S t).length :: tlvBytes ((sent S t).map tlvOf) := by
  have hclear : (t.map reqOf).map clearChecked = reqs t [] := by
    rw [map_map]
    apply map_congr_left
    simp [clearChecked, reqOf]
  have hw := innerDealLogConfigCheck_walk ht S [] [] tPkgBodyLen hseq
  have htlvs : ∀ a : Answer, a.tlvs = (sent S t).map tlvOf →
      UInt8.ofNat a.tlvs.length :: tlvBytes a.tlvs =
        UInt8.ofNat (sent S t).length :: tlvBytes ((sent S t).map tlvOf) := by
    intro a ha
    rw [ha, length_map]
  rw [setLogConfigCheckInfo, hclear]
  obtain ⟨happ, hcut⟩ := fit_append tlvLen respBufLen (dels dwCfgId S t)
    (ups dwCfgId S t) tPkgBodyLen
  split
  · rename_i h0
    obtain ⟨marked', hreqs, hmem⟩ := hw.marks h0
    have hall := hw.tmp.mp h0
    have hdels : (t.filter fun c => c.dwCfgId ∉ marked').map
        (fun c => (.del c.dwCfgId : CfgChange)) = dels dwCfgId S t := by
      congr 1
      apply filter_congr
      intro c hc
      have hm := hmem c.dwCfgId (mem_map_of_mem hc)
      rw [Bool.eq_iff_iff, decide_eq_true_iff, Option.isNone_iff_eq_none, look_eq_none, hm]
      simp
    apply htlvs
    rw [hreqs, delLoop_tlvs, hw.tlvs, hw.len, hdels, hall, sent, changes, happ hall, map_append]
    rfl
  · rename_i h0
    apply htlvs
    rw [hw.tlvs, sent, changes, hcut fun h => h0 (hw.tmp.mpr h)]
    rfl

end Server

/-! ## What the agent does with an answer -/

/-- One change; `pcfg` and `logged` as in `applyTlv`. -/
def applyChange (logged pcfg : Bool) (t : List SLogConfig) : CfgChange → Option Flow
  | .add c =>
    if maxLogConfigCount ≤ t.length then some (.stop t)
    else some (.next true (qsort cmpSLogConfig (t ++ [c])))
  | .mod c =>
    match bsearch (cmpCfgId c.dwCfgId) t with
    | none => some (.next true t)
    | some i => some (.next true (t.set i c))
  | .del id =>
    match bsearch (cmpCfgId id) t with
    | none => if !pcfg && logged then none else some (.next pcfg t)
    | some i => if !pcfg && logged then none else some (.next pcfg (t.eraseIdx i))

def applyChanges (logged : Nat → Bool) :
    Nat → Bool → List SLogConfig → List CfgChange → Option (List SLogConfig)
  | _, _, t, [] => some t
  | k, pcfg, t, c :: cs =>
    match applyChange (logged k) pcfg t c with
    | none => none
    | some (.stop t) => some t
    | some (.next pcfg t) => applyChanges logged (k + 1) pcfg t cs

section Agent

variable {S t t' : List SLogConfig} {cs : List CfgChange} {logged : Nat → Bool} {pcfg : Bool}

theorem applyTlv_tlvOf (b pcfg : Bool) (t : List SLogConfig) (c : CfgChange) (rest : Bytes) :
    applyTlv b pcfg t ((tlvOf c).bytes ++ rest) = applyChange b pcfg t c := by
  unfold applyTlv
  rw [WTlv.rd16_type]
  simp only [bind_eq_bind, bind_some]
  cases c with
  | add c =>
    show (if tlvMoniConfigAdd.toNat = tlvMoniConfigAdd.toNat then _ else _) = _
    rw [if_pos rfl, applyChange]
    split
    · rfl
    · show (readConfig (c.bytes ++ rest)).bind _ = _
      rw [readConfig_bytes]
      rfl
  | mod c =>
    show (if tlvMoniConfigMod.toNat = tlvMoniConfigAdd.toNat then _ else _) = _
    rw [if_neg (by decide)]
    show (if tlvMoniConfigMod.toNat = tlvMoniConfigMod.toNat then _ else _) = _
    rw [if_pos rfl, applyChange]
    show (rd32 (c.bytes ++ rest) 4).bind _ = _
    rw [rd32_id_bytes, bind_some, UInt32.ofNat_toNat]
    split
    · rfl
    · show (readConfig (c.bytes ++ rest)).bind _ = _
      rw [readConfig_bytes]
      rfl
  | del id =>
    show (if tlvMoniConfigDel.toNat = tlvMoniConfigAdd.toNat then _ else _) = _
    rw [if_neg (by decide)]
    show (if tlvMoniConfigDel.toNat = tlvMoniConfigMod.toNat then _ else _) = _
    rw [if_neg (by decide), applyChange]
    show (rd32 (put32 id ++ rest) 0).bind _ = _
    rw [rd32_put32, bind_some, UInt32.ofNat_toNat]
    split <;> rfl

theorem getWTlvType2List_tlvs (ts : List WTlv) (hlen : ts.length < 256) (k : Nat) :
    getWTlvType2List (UInt8.ofNat ts.length :: tlvBytes ts) k =
      if k < ts.length then some (some (tlvBytes (ts.drop k), (k : Int) + 1)) else some none := by
  have hnum : rd8 (UInt8.ofNat ts.length :: tlvBytes ts) 0 = some ts.length := by
    show some (UInt8.ofNat ts.length).toNat = _
    rw [UInt8.toNat_ofNat', Nat.mod_eq_of_lt hlen]
  rw [getWTlvType2List, hnum]
  simp only [bind_eq_bind, bind_some]
  by_cases hk : k < ts.length
  · rw [if_pos hk, if_neg (by omega)]
    show (skipTlvs k (tlvBytes ts)).bind _ = _
    rw [skipTlvs_tlvBytes (Nat.le_of_lt hk)]
    rfl
  · rw [if_neg hk, if_pos (by omega)]
    rfl

theorem applyLoop_eq (hlen : cs.length < 256) :
    ∀ {fuel k} {pcfg} {t}, cs.length < fuel + k →
      applyLoop logged (UInt8.ofNat cs.length :: tlvBytes (cs.map tlvOf)) fuel k pcfg t =
        applyChanges logged k pcfg t (cs.drop k) := by
  intro fuel
  induction fuel with
  | zero =>
    intro k pcfg t hk
    rw [drop_eq_nil_of_le (by omega)]
    rfl
  | succ fuel ih =>
    intro k pcfg t hk
    have hget := getWTlvType2List_tlvs (cs.map tlvOf) (by rw [length_map]; exact hlen) k
    rw [length_map] at hget
    rw [applyLoop, hget]
    by_cases hlt : k < cs.length
    · have hbytes : tlvBytes ((cs.map tlvOf).drop k) =
          (tlvOf cs[k]).bytes ++ tlvBytes ((cs.map tlvOf).drop (k + 1)) := by
        have hcons := tlvBytes_cons (tlvOf cs[k]) ((cs.map tlvOf).drop (k + 1)) []
        rw [append_nil, append_nil] at hcons
        rw [← hcons, drop_eq_getElem_cons (by rw [length_map]; exact hlt), getElem_map]
      rw [if_pos hlt, hbytes, drop_eq_getElem_cons hlt, applyChanges]
      simp only [bind_eq_bind, bind_some]
      rw [applyTlv_tlvOf]
      cases applyChange (logged k) pcfg t cs[k] with
      | none => rfl
      | some f =>
        cases f with
        | stop t => rfl
        | next pcfg t => exact ih (by omega)
    · rw [if_neg hlt, drop_eq_nil_of_le (by omega)]
      rfl

theorem length_sent_lt (S t : List SLogConfig) : (sent S t).length < 256 := by
  have h : 8 * (sent S t).length ≤ respBufLen - tPkgBodyLen :=
    length_fit_le fun c _ => (tlvLen_bounds c).1
  have hlen : respBufLen - tPkgBodyLen = 1199 := rfl
  omega

theorem length_tlvBytes_fit : ∀ cs used, used ≤ respBufLen →
      (tlvBytes ((fit tlvLen respBufLen used cs).map tlvOf)).length + used ≤ respBufLen := by
  intro cs
  induction cs with
  | nil => simp [fit, tlvBytes]
  | cons c cs ih =>
    intro used h
    rw [fit]
    split
    · simpa [tlvBytes] using h
    · have hrest := ih (used + tlvLen c) (by omega)
      have hc : (tlvOf c).sValue.length + twTlvLen = tlvLen c := (WTlv.length_bytes _).symm
      rw [map_cons, length_tlvBytes_cons]
      omega

theorem decrypt_encrypt (l : Link) (e : Env) {body : Bytes} (hlen : body.length ≤ respBufLen) :
    l.decrypt e (l.encrypt body) = some body := by
  unfold Link.decrypt Link.encrypt
  cases l.bEnableEncryptData with
  | false => rfl
  | true =>
    obtain ⟨rest, hr⟩ := aesDecipherData_cipher (l.aes.inv_cipher .aes128 l.sRandKey) body
      e.sCmdContentBuf.toList e.before (by
        rw [Vector.length_toList]
        simp only [respBufLen, contentBufLen] at hlen ⊢
        omega)
    simp [hr]

/-- A round is what the agent does with the changes that were sent. -/
theorem round_eq (l : Link) (e : Env) (hlen : t.length < 65536)
    (ht : (t.map dwCfgId).Nodup) (hseq : SeqOk S t) :
    round l S t e = applyChanges e.logged 0 false t (sent S t) := by
  have hcheck : readCheck (contentCheckLogConfig e.dwServerResponseTime (t.map reqOf))
      (contentCheckLogConfig e.dwServerResponseTime (t.map reqOf)).length =
      some (.ok (t.map reqOf)) := by
    have h := readCheck_bytes e.dwServerResponseTime (t.map reqOf)
      (by rw [length_map]; exact hlen) []
    rw [append_nil, ← length_contentCheck e.dwServerResponseTime] at h
    exact h
  have hbody : (UInt8.ofNat (sent S t).length :: tlvBytes ((sent S t).map tlvOf)).length ≤
      respBufLen := by
    have := length_tlvBytes_fit (changes dwCfgId S t) tPkgBodyLen (by decide)
    exact this
  have hpkg : checkPkgBody (UInt8.ofNat (sent S t).length :: tlvBytes ((sent S t).map tlvOf)) =
      some true := by
    have hnum : (UInt8.ofNat (sent S t).length).toNat = ((sent S t).map tlvOf).length := by
      rw [UInt8.toNat_ofNat', length_map, Nat.mod_eq_of_lt (length_sent_lt S t)]
    have htlvs := checkTlvs_tlvBytes ((sent S t).map tlvOf) []
    rw [append_nil, ← hnum] at htlvs
    exact htlvs
  unfold round
  dsimp only
  rw [hcheck]
  simp only [bind_eq_bind, bind_some]
  unfold dealRespCheckLogConfig
  rw [setLogConfigCheckInfo_eq ht hseq, decrypt_encrypt l e hbody]
  simp only [bind_eq_bind, bind_some, hpkg]
  show applyLoop _ _ _ _ _ _ = _
  have hlt := length_sent_lt S t
  rw [applyLoop_eq hlt (by omega), drop_zero]

/-! ### The table -/

/-- The order of the table. -/
def cfgKey (c : SLogConfig) : Int := c.dwCfgId.toNat

/-- Strictly sorted by id. -/
def Sorted (t : List SLogConfig) : Prop := (t.map cfgKey).Pairwise (· < ·)

theorem cfgKey_inj {a b : SLogConfig} : cfgKey a = cfgKey b ↔ a.dwCfgId = b.dwCfgId := by
  unfold cfgKey
  rw [Int.natCast_inj, UInt32.toNat_inj]

theorem Sorted.nodup (h : Sorted t) : (t.map dwCfgId).Nodup := by
  rw [Sorted, pairwise_map] at h
  rw [List.Nodup, pairwise_map]
  refine h.imp fun {a b} hab he => ?_
  rw [cfgKey_inj.mpr he] at hab
  exact lt_irrefl _ hab

theorem cmpCfgId_sign (id : UInt32) (c : SLogConfig) :
    (cmpCfgId id c < 0 ↔ (id.toNat : Int) < cfgKey c) ∧
      (0 < cmpCfgId id c ↔ cfgKey c < (id.toNat : Int)) := by
  unfold cmpCfgId cfgKey
  simp only [lt_iff_toNat_lt]
  split
  · omega
  · split <;> omega

theorem bsearch_id (h : Sorted t) {id : UInt32} (hid : look dwCfgId t id ≠ none) :
    ∃ l1 c l2, t = l1 ++ c :: l2 ∧ c.dwCfgId = id ∧ bsearch (cmpCfgId id) t = some l1.length := by
  rcases bsearch_cases h (fun c _ => (cmpCfgId_sign id c).1)
    (fun c _ => (cmpCfgId_sign id c).2) with ⟨l1, c, l2, ht, hk, hb⟩ | ⟨hno, -⟩
  · refine ⟨l1, c, l2, ht, ?_, hb⟩
    exact UInt32.toNat_inj.mp (Int.natCast_inj.mp hk)
  · obtain ⟨c, hc⟩ := Option.ne_none_iff_exists'.mp hid
    refine absurd ?_ (hno c (mem_of_look hc))
    rw [cfgKey, key_of_look hc]

theorem sorted_add (h : Sorted t) {c : SLogConfig}
    (hnew : look dwCfgId t c.dwCfgId = none) : Sorted (qsort cmpSLogConfig (t ++ [c])) := by
  apply qsort_sorted
  · intro a _ b _
    have := (cmpCfgId_sign a.dwCfgId b).2
    show cmpCfgId a.dwCfgId b ≤ 0 ↔ ((a.dwCfgId.toNat : Nat) : Int) ≤ cfgKey b
    omega
  · rw [map_append, nodup_append]
    refine ⟨h.imp ne_of_lt, nodup_singleton _, fun k hk k' hk' heq => ?_⟩
    obtain ⟨a, ha, rfl⟩ := mem_map.mp hk
    rw [map_singleton, mem_singleton] at hk'
    rw [hk', cfgKey_inj] at heq
    exact look_eq_none.mp hnew (heq ▸ mem_map_of_mem ha)

/-- One change: a new config for which there is no room, or the table with the
change made. Only a deletion before which no config came can crash. -/
theorem applyChange_spec (h : Sorted t) {c : CfgChange} (hf : Fits dwCfgId t c) (b : Bool)
    (hb : c.goal = none → pcfg = false → b = false) :
    (applyChange b pcfg t c = some (.stop t) ∧ maxLogConfigCount ≤ t.length ∧ ∃ a, c = .add a) ∨
      ∃ t', applyChange b pcfg t c = some (.next (pcfg || c.goal.isSome) t') ∧ Sorted t' ∧
        Sets dwCfgId t (c.key dwCfgId) c.goal t' ∧
        (c.goal ≠ none → look dwCfgId t (c.key dwCfgId) = none → t.length < maxLogConfigCount) := by
  cases c with
  | add c =>
    rw [applyChange]
    split
    · rename_i hfull
      exact .inl ⟨rfl, hfull, c, rfl⟩
    have hperm : (qsort cmpSLogConfig (t ++ [c])).Perm (c :: t) :=
      (qsort_perm _ _).trans (perm_append_singleton c t)
    exact .inr ⟨_, by simp [Change.goal], sorted_add h hf, .add h.nodup hf hperm,
      fun _ _ => by omega⟩
  | mod c =>
    obtain ⟨l1, d, l2, rfl, hid, hbs⟩ := bsearch_id h hf
    refine .inr ⟨l1 ++ c :: l2, ?_, ?_, .mod h.nodup hid, fun _ hn => absurd hn hf⟩
    · rw [applyChange, hbs]
      simp [Change.goal]
    · unfold Sorted at h ⊢
      simp only [map_append, map_cons] at h ⊢
      rw [cfgKey_inj.mpr hid.symm]
      exact h
  | del id =>
    obtain ⟨l1, d, l2, rfl, rfl, hbs⟩ := bsearch_id h hf
    have herase : (l1 ++ d :: l2).eraseIdx l1.length = l1 ++ l2 := by
      rw [eraseIdx_append_of_length_le (Nat.le_refl _), Nat.sub_self]
      rfl
    have hno : ¬ (!pcfg && b) = true := by
      cases hp : pcfg with
      | true => simp
      | false => simp [hb rfl hp]
    refine .inr ⟨l1 ++ l2, ?_, ?_, .del h.nodup, fun hg => absurd rfl hg⟩
    · rw [applyChange, hbs]
      dsimp only
      rw [if_neg hno, herase]
      simp [Change.goal]
    · exact h.sublist (((List.Sublist.refl l1).append (sublist_cons_self d l2)).map cfgKey)

/-- An answer whose changes fit the table. The log lines count as long as no
config came. -/
theorem applyChanges_applied :
    ∀ {cs : List CfgChange} {t} k pcfg, Sorted t →
      (cs.map (Change.key dwCfgId)).Nodup → (∀ c ∈ cs, Fits dwCfgId t c) →
      (pcfg = false → (∀ c ∈ cs.head?, c.goal ≠ none) ∨ ∀ j < cs.length, logged (k + j) = false) →
      ∃ t', applyChanges logged k pcfg t cs = some t' ∧ Sorted t' ∧
        Applied dwCfgId maxLogConfigCount t cs t' := by
  intro cs
  induction cs with
  | nil => exact fun _ _ h _ _ _ => ⟨_, rfl, h, .done _⟩
  | cons c cs ih =>
    intro t k pcfg h hnd hfits hlog
    rw [map_cons, nodup_cons] at hnd
    have hb : c.goal = none → pcfg = false → logged k = false := fun hg hp =>
      (hlog hp).elim (fun hhead => absurd hg (hhead c rfl)) fun hall => hall 0 (Nat.succ_pos _)
    rw [applyChanges]
    rcases applyChange_spec h (hfits c mem_cons_self) (logged k) hb with
      ⟨hstop, hfull, a, rfl⟩ | ⟨t1, hnext, hs1, hsets, hroom⟩
    · rw [hstop]
      exact ⟨t, rfl, h, .full hfull⟩
    rw [hnext]
    have hfits1 : ∀ c' ∈ cs, Fits dwCfgId t1 c' := fun c' hc' =>
      hsets.fits (fun he => hnd.1 (he ▸ mem_map_of_mem hc')) (hfits c' (mem_cons_of_mem _ hc'))
    obtain ⟨t', ht', hs', happ⟩ := ih (k + 1) (pcfg || c.goal.isSome) hs1 hnd.2 hfits1 (by
      intro hp
      rw [Bool.or_eq_false_iff] at hp
      right
      intro j hj
      have hall := (hlog hp.1).resolve_left fun hhead => hhead c rfl (by simpa using hp.2)
      have := hall (j + 1) (Nat.succ_lt_succ hj)
      rw [show k + 1 + j = k + (j + 1) by omega]
      exact this)
    exact ⟨t', ht', hs', .step hroom hsets happ⟩

/-- Nothing but deletions, and one of the log lines is written. -/
theorem applyChanges_crash :
    ∀ {cs} {t} {k}, (∀ c ∈ cs, c.goal = none) →
      (∃ j < cs.length, logged (k + j) = true) → applyChanges logged k false t cs = none := by
  intro cs
  induction cs with
  | nil =>
    rintro t k - ⟨j, hj, -⟩
    simp at hj
  | cons c cs ih =>
    rintro t k hdel ⟨j, hj, hlog⟩
    rw [applyChanges]
    cases c with
    | add a => exact absurd (hdel _ mem_cons_self) (Option.some_ne_none a)
    | mod a => exact absurd (hdel _ mem_cons_self) (Option.some_ne_none a)
    | del id =>
      have hrest : logged k = false → ∀ t', applyChanges logged (k + 1) false t' cs = none := by
        intro hk t'
        apply ih fun c hc => hdel c (mem_cons_of_mem _ hc)
        cases j with
        | zero => rw [Nat.add_zero, hk] at hlog; cases hlog
        | succ j => exact ⟨j, by simpa using hj, by rw [← hlog]; congr 1; omega⟩
      cases hk : logged k with
      | true =>
        rw [applyChange]
        cases bsearch (cmpCfgId id) t <;> rfl
      | false =>
        rw [applyChange]
        cases bsearch (cmpCfgId id) t with
        | none => exact hrest hk t
        | some i => exact hrest hk _

end Agent

/-! ## One round -/

/-- What holds of the table between two rounds. -/
structure Good (S t : List SLogConfig) : Prop where
  sorted : Sorted t
  len_le : t.length ≤ maxLogConfigCount
  seq : SeqOk S t

/-- The ids of both sides. -/
def allIds (S t : List SLogConfig) : Finset UInt32 :=
  keys dwCfgId t ∪ keys dwCfgId S

/-- As many deletions fit an answer. -/
def maxDels : Nat := 149

/-- When there is nothing to add or to modify, no deletion is logged. -/
def Quiet (S t : List SLogConfig) (e : Env) : Prop :=
  ups dwCfgId S t = [] → ∀ k < maxDels, k < (dels dwCfgId S t).length → e.logged k = false

section Round

variable {S t t' : List SLogConfig} {e : Env} (l : Link)

theorem Good.len_lt (h : Good S t) : t.length < 65536 :=
  Nat.lt_of_le_of_lt h.len_le (by decide)

theorem sent_prefix_changes (S t : List SLogConfig) : sent S t <+: changes dwCfgId S t :=
  fit_prefix _ _ _ _

theorem sent_ne_nil (h : changes dwCfgId S t ≠ []) : sent S t ≠ [] :=
  fit_ne_nil h fun c _ => (tlvLen_bounds c).2

/-- The answer where there is nothing to add or to modify. -/
theorem sent_of_ups_nil (h : ups dwCfgId S t = []) : (∀ c ∈ sent S t, c.goal = none) ∧
      (sent S t).length = min (dels dwCfgId S t).length maxDels := by
  have hch : changes dwCfgId S t = dels dwCfgId S t := by
    rw [changes, h, nil_append]
  constructor
  · intro c hc
    have := (sent_prefix_changes S t).subset hc
    rw [hch] at this
    exact goal_of_dels this
  · have hsize : ∀ c ∈ dels dwCfgId S t, tlvLen c = 8 := by
      intro c hc
      obtain ⟨b, -, -, rfl⟩ := mem_dels.mp hc
      rfl
    rw [sent, hch, length_fit (by decide) hsize]
    rfl

/-- With something to add or to modify, the answer begins with it. -/
theorem head_sent (h : ups dwCfgId S t ≠ []) : ∀ c ∈ (sent S t).head?, c.goal ≠ none := by
  intro c hc
  obtain ⟨us, ds, heq, hus, -, hall⟩ := prefix_changes (sent_prefix_changes S t)
  rw [heq] at hc
  cases us with
  | nil =>
    cases ds with
    | nil => cases hc
    | cons d ds => exact absurd (hall (cons_ne_nil _ _)).symm h
  | cons u us =>
    cases hc
    exact (goal_ne_none_of_ups (hus.subset mem_cons_self)).1

theorem round_applied (hS : (S.map dwCfgId).Nodup) (hg : Good S t) (hq : Quiet S t e) :
    ∃ t', round l S t e = some t' ∧ Sorted t' ∧
      Applied dwCfgId maxLogConfigCount t (sent S t) t' := by
  have hp := sent_prefix_changes S t
  have hnd := hg.sorted.nodup
  rw [round_eq l e hg.len_lt hnd hg.seq]
  apply applyChanges_applied 0 false hg.sorted ((hp.sublist.map _).nodup (nodup_changes hS hnd))
    (fun c hc => fits_of_changes hnd (hp.subset hc))
  intro _
  by_cases hups : ups dwCfgId S t = []
  · right
    intro j hj
    rw [(sent_of_ups_nil hups).2] at hj
    rw [Nat.zero_add]
    exact hq hups j (by omega) (by omega)
  · exact .inl (head_sent hups)

theorem round_crash (hg : Good S t) (hups : ups dwCfgId S t = []) {k : Nat}
    (hk : k < maxDels) (hk' : k < (dels dwCfgId S t).length) (hlog : e.logged k = true) :
    round l S t e = none := by
  obtain ⟨hdel, hlen⟩ := sent_of_ups_nil hups
  rw [round_eq l e hg.len_lt hg.sorted.nodup hg.seq]
  exact applyChanges_crash hdel ⟨k, by omega, by rw [Nat.zero_add]; exact hlog⟩

theorem quiet_of_round (hg : Good S t) (hr : round l S t e = some t') : Quiet S t e := by
  intro hups k hk hk'
  cases hlog : e.logged k with
  | false => rfl
  | true =>
    rw [round_crash l hg hups hk hk' hlog] at hr
    cases hr

variable (hS : (S.map dwCfgId).Nodup)
include hS

/-- Nothing is deleted from the table of the server. -/
theorem quiet_of_perm (hp : t.Perm S) (e : Env) : Quiet S t e := by
  intro _ k _ hk
  obtain ⟨c, hc⟩ := exists_mem_of_ne_nil _ (ne_nil_of_length_pos (Nat.zero_lt_of_lt hk))
  obtain ⟨b, hb, hnone, -⟩ := mem_dels.mp hc
  rw [look_of_mem hS (hp.mem_iff.mp hb)] at hnone
  cases hnone

theorem seqOk_of_applied (hg : Good S t)
    (h : Applied dwCfgId maxLogConfigCount t (sent S t) t') : SeqOk S t' := by
  have hnd := hg.sorted.nodup
  intro a ha b hb hid hseq
  rcases h.mem hnd hb with hb | ⟨c, hc, hgoal⟩
  · exact hg.seq a ha b hb hid hseq
  -- a config of the server
  have hlook := (mem_changes hS hnd ((sent_prefix_changes S t).subset hc)).1
  rw [hgoal] at hlook
  have hb := look_of_mem hS (mem_of_look hlook.symm)
  rw [← hid, look_of_mem hS ha] at hb
  exact Option.some.inj hb

/-- **A round with room for all ids**: it keeps the room, and if the table is not
that of the server, fewer ids differ afterwards. -/
theorem round_progress (hg : Good S t)
    (hroom : (allIds S t).card ≤ maxLogConfigCount) (hq : Quiet S t e) :
    ∃ t', round l S t e = some t' ∧ Good S t' ∧ (allIds S t').card ≤ maxLogConfigCount ∧
      (¬ t.Perm S → (diff dwCfgId S t').card < (diff dwCfgId S t).card ∧
        ∃ id, look dwCfgId t id ≠ look dwCfgId S id ∧ look dwCfgId t' id = look dwCfgId S id) := by
  obtain ⟨t', hr, hs, happ⟩ := round_applied l hS hg hq
  have hp := sent_prefix_changes S t
  have hnd := hg.sorted.nodup
  have hprog := happ.progress hp hS hnd hroom
  have hroom' : (allIds S t').card ≤ maxLogConfigCount :=
    Nat.le_trans (Finset.card_le_card hprog.room) hroom
  have hlen : t'.length ≤ maxLogConfigCount := by
    rw [← card_keys hs.nodup]
    exact Nat.le_trans (Finset.card_le_card Finset.subset_union_left) hroom'
  refine ⟨t', hr, ⟨hs, hlen, seqOk_of_applied hS hg happ⟩, hroom', fun hne => ?_⟩
  have hch : changes dwCfgId S t ≠ [] := by
    intro hnil
    apply hne
    apply perm_of_look hnd hS
    intro k
    by_contra hk
    obtain ⟨c, hc, -⟩ := exists_change hk
    rw [hnil] at hc
    cases hc
  obtain ⟨c, hc⟩ := exists_mem_of_ne_nil _ (sent_ne_nil hch)
  exact ⟨hprog.card_diff_lt hp hS hnd (sent_ne_nil hch), c.key dwCfgId,
    (mem_changes hS hnd (hp.subset hc)).2, hprog.set c hc⟩

/-- **A round without room for all ids**: there is none afterwards. -/
theorem round_blocked (hg : Good S t)
    (hroom : maxLogConfigCount < (allIds S t).card) (hr : round l S t e = some t') :
    Good S t' ∧ allIds S t' = allIds S t := by
  obtain ⟨t1, hr1, hs, happ⟩ := round_applied l hS hg (quiet_of_round l hg hr)
  rw [hr] at hr1
  cases hr1
  obtain ⟨-, hlen, hids⟩ := happ.blocked (sent_prefix_changes S t) hg.sorted.nodup hg.len_le hroom
  exact ⟨⟨hs, hlen, seqOk_of_applied hS hg happ⟩, hids⟩

end Round

/-! ## Repeated rounds -/

/-- The table of an agent. -/
structure Table where
  cfgs : List SLogConfig
  sorted : Sorted cfgs
  len_le : cfgs.length ≤ maxLogConfigCount

/-- The list of a server. -/
structure Target where
  cfgs : List SLogConfig
  nodup : (cfgs.map dwCfgId).Nodup
  len_le : cfgs.length ≤ maxLogConfigCount

/-- The table after `n` rounds, the `i`-th with `e i`. -/
def rounds (l : Link) (S : List SLogConfig) (e : Nat → Env) (n : Nat) (t : List SLogConfig) :
    Option (List SLogConfig) :=
  run (round l S) ((List.range n).map e) t

/-- A round on the way from `C` to `S` changes a differing id to its state in `S`. -/
def Advances (l : Link) (S t : List SLogConfig) (e : Env) : Prop :=
  ∃ t', round l S t e = some t' ∧ ∃ id, look dwCfgId t id ≠ look dwCfgId S id ∧
      look dwCfgId t' id = look dwCfgId S id

section Rounds

variable {l : Link} {e : Nat → Env} {S : Target} {C : Table}

theorem rounds_succ (l : Link) (S : List SLogConfig) (e : Nat → Env) (n : Nat)
    (t : List SLogConfig) :
    rounds l S e (n + 1) t = (rounds l S e n t).bind fun t => round l S t (e n) := by
  rw [rounds, range_succ, map_append, run_append]
  congr 1
  funext t
  exact Option.bind_fun_some _

/-- What a round keeps holds after any number of them. -/
theorem rounds_keeps {P : List SLogConfig → Prop} (h0 : P C.cfgs) {n : Nat} {t : List SLogConfig}
    (hstep : ∀ t e t', P t → round l S.cfgs t e = some t' → P t')
    (ht : rounds l S.cfgs e n C.cfgs = some t) : P t :=
  run_keeps (fun t e t' h (_ : True) => hstep t e t' h) h0 (meets_of_forall fun _ _ _ => trivial) ht

/-- Without room for all ids there is never room. -/
theorem rounds_blocked (hseq : SeqOk S.cfgs C.cfgs)
    (hroom : maxLogConfigCount < (allIds S.cfgs C.cfgs).card) {n : Nat} {t : List SLogConfig} :
    rounds l S.cfgs e n C.cfgs = some t →
      Good S.cfgs t ∧ allIds S.cfgs t = allIds S.cfgs C.cfgs := by
  refine rounds_keeps (P := fun t => Good S.cfgs t ∧ allIds S.cfgs t = allIds S.cfgs C.cfgs)
    ⟨⟨C.sorted, C.len_le, hseq⟩, rfl⟩ ?_
  rintro t e t' ⟨hg, hids⟩ hr
  obtain ⟨hg', hids'⟩ := round_blocked l S.nodup hg (hids ▸ hroom) hr
  exact ⟨hg', hids'.trans hids⟩

theorem not_perm_of_blocked {t : List SLogConfig} (hids : allIds S.cfgs t = allIds S.cfgs C.cfgs)
    (hroom : maxLogConfigCount < (allIds S.cfgs C.cfgs).card) : ¬ t.Perm S.cfgs := by
  intro hp
  have hkeys : keys dwCfgId t = keys dwCfgId S.cfgs :=
    toFinset_eq_of_perm _ _ (hp.map _)
  rw [← hids, allIds, hkeys, Finset.union_self, card_keys S.nodup] at hroom
  exact absurd S.len_le (Nat.not_le.mpr hroom)

theorem rounds_room (hseq : SeqOk S.cfgs C.cfgs)
    (hroom : (allIds S.cfgs C.cfgs).card ≤ maxLogConfigCount) {n : Nat} {t : List SLogConfig} :
    rounds l S.cfgs e n C.cfgs = some t →
      Good S.cfgs t ∧ (allIds S.cfgs t).card ≤ maxLogConfigCount := by
  refine rounds_keeps (P := fun t => Good S.cfgs t ∧ (allIds S.cfgs t).card ≤ _)
    ⟨⟨C.sorted, C.len_le, hseq⟩, hroom⟩ ?_
  rintro t e t' ⟨hg, hroom⟩ hr
  obtain ⟨t1, hr1, hg', hroom', -⟩ := round_progress l S.nodup hg hroom (quiet_of_round l hg hr)
  rw [hr] at hr1
  cases hr1
  exact ⟨hg', hroom'⟩

/-- The number of differing ids goes down until none is left. -/
theorem rounds_converge (hseq : SeqOk S.cfgs C.cfgs)
    (hroom : (allIds S.cfgs C.cfgs).card ≤ maxLogConfigCount)
    (hq : ∀ n t, rounds l S.cfgs e n C.cfgs = some t → Quiet S.cfgs t (e n)) :
    ∀ m n t, rounds l S.cfgs e n C.cfgs = some t →
      (diff dwCfgId S.cfgs t).card ≤ m →
      ∃ n' t', rounds l S.cfgs e n' C.cfgs = some t' ∧ t'.Perm S.cfgs := by
  intro m
  induction m with
  | zero =>
    intro n t ht hm
    obtain ⟨hg, hr⟩ := rounds_room hseq hroom ht
    refine ⟨n, t, ht, perm_of_look hg.sorted.nodup S.nodup fun k => ?_⟩
    by_contra hk
    have hd := mem_diff.mpr hk
    rw [Finset.card_eq_zero.mp (Nat.le_zero.mp hm)] at hd
    exact Finset.notMem_empty k hd
  | succ m ih =>
    intro n t ht hm
    obtain ⟨hg, hr⟩ := rounds_room hseq hroom ht
    by_cases hp : t.Perm S.cfgs
    · exact ⟨n, t, ht, hp⟩
    · obtain ⟨t', ht', -, -, hlt⟩ := round_progress l S.nodup hg hr (hq n t ht)
      have hcard := (hlt hp).1
      exact ih (n + 1) t' (by rw [rounds_succ, ht]; exact ht') (by omega)

end Rounds

/-- **Config sync.** Repeating the round leads to the list of the server, with
progress in every round that does not start there, exactly if the ids of both
sides together fit the table and no round with nothing but deletions logs one. -/
theorem config_sync (l : Link) (S : Target) (C : Table) (hseq : SeqOk S.cfgs C.cfgs)
    (e : Nat → Env) :
    ((∃ n t, rounds l S.cfgs e n C.cfgs = some t ∧ t.Perm S.cfgs) ∧
      ∀ n t, rounds l S.cfgs e n C.cfgs = some t → ¬ t.Perm S.cfgs → Advances l S.cfgs t (e n)) ↔
    ((allIds S.cfgs C.cfgs).card ≤ maxLogConfigCount ∧
      ∀ n t, rounds l S.cfgs e n C.cfgs = some t → Quiet S.cfgs t (e n)) := by
  constructor
  · rintro ⟨⟨n, t, ht, hp⟩, hadv⟩
    have hroom : (allIds S.cfgs C.cfgs).card ≤ maxLogConfigCount := by
      by_contra h
      exact not_perm_of_blocked (rounds_blocked hseq (by omega) ht).2 (by omega) hp
    refine ⟨hroom, fun n t ht => ?_⟩
    by_cases hp : t.Perm S.cfgs
    · exact quiet_of_perm S.nodup hp (e n)
    · obtain ⟨t', hr, -⟩ := hadv n t ht hp
      exact quiet_of_round l (rounds_room hseq hroom ht).1 hr
  · rintro ⟨hroom, hq⟩
    refine ⟨rounds_converge hseq hroom hq _ 0 C.cfgs rfl (Nat.le_refl _), fun n t ht hp => ?_⟩
    obtain ⟨hg, hr⟩ := rounds_room hseq hroom ht
    obtain ⟨t', ht', -, -, hadv⟩ := round_progress l S.nodup hg hr (hq n t ht)
    exact ⟨t', ht', (hadv hp).2⟩

/-- A config without test keys. -/
def plainCfg (dwCfgId : UInt32) : SLogConfig := ⟨1, dwCfgId, 0, 0, 0, 0, [], by decide⟩

def plainLink : Link := ⟨idBlockCipher, [], false⟩

def plainEnv (logged : Bool) : Env := ⟨fun _ => logged, Vector.replicate _ 0, 0, 0⟩

/-- The server has config 2, the agent config 1. -/
theorem config_sync_one_for_one :
    ∃ n t, rounds plainLink [plainCfg 2] (fun _ => plainEnv false) n [plainCfg 1] = some t ∧
      t.Perm [plainCfg 2] :=
  ((config_sync plainLink ⟨[plainCfg 2], by decide, by decide⟩
    ⟨[plainCfg 1], by simp [Sorted], by decide⟩ (by decide) fun _ => plainEnv false).mpr
      ⟨by decide, fun _ _ _ _ _ _ _ => rfl⟩).1

/-- **Agreement lasts.** Once the agent has the configs of the server, every number of rounds
returns and leaves its table as it is. -/
theorem agreed_stays (l : Link) (S : Target) (C : Table) (hp : C.cfgs.Perm S.cfgs)
    (e : Nat → Env) (n : Nat) : rounds l S.cfgs e n C.cfgs = some C.cfgs := by
  have hseq : SeqOk S.cfgs C.cfgs := fun a ha b hb hid _ =>
    inj_on_of_nodup_map S.nodup ha (hp.mem_iff.mp hb) hid
  induction n with
  | zero => rfl
  | succ n ih =>
    rw [rounds_succ, ih, bind_some]
    obtain ⟨t', hr, -, happ⟩ := round_applied l S.nodup ⟨C.sorted, C.len_le, hseq⟩
      (quiet_of_perm S.nodup hp (e n))
    -- only configs that differ are sent
    have hsent : sent S.cfgs C.cfgs = [] := eq_nil_iff_forall_not_mem.mpr fun c hc =>
      (mem_changes S.nodup C.sorted.nodup ((sent_prefix_changes _ _).subset hc)).2
        (look_perm C.sorted.nodup hp _)
    rw [hsent] at happ
    cases happ
    exact hr

theorem agreed_stays_five : rounds plainLink [plainCfg 1] (fun _ => plainEnv true) 5 [plainCfg 1] =
    some [plainCfg 1] :=
  agreed_stays plainLink ⟨[plainCfg 1], by decide, by decide⟩
    ⟨[plainCfg 1], by simp [Sorted], by decide⟩ (List.Perm.refl _) _ 5

/-! ## Where the rounds fail -/

/-- A table with the ids 1 to `n`. -/
def idsTable (n : Nat) (hn : n ≤ maxLogConfigCount) : Table where
  cfgs := (List.range n).map fun i => plainCfg (ofNat (i + 1))
  sorted := by
    rw [Sorted, map_map, pairwise_map]
    refine pairwise_lt_range.imp_of_mem fun {i j} hi hj hlt => ?_
    rw [maxLogConfigCount] at hn
    rw [mem_range] at hi hj
    show ((ofNat (i + 1)).toNat : Int) < (ofNat (j + 1)).toNat
    rw [toNat_ofNat', toNat_ofNat']
    omega
  len_le := by rw [length_map, length_range]; exact hn

theorem length_idsTable {n : Nat} (hn : n ≤ maxLogConfigCount) : (idsTable n hn).cfgs.length = n := by
  rw [idsTable, length_map, length_range]

/-- With one new config the full table stays as it is; and a table with one config
too many and the log on is the end of the agent. -/
theorem config_sync_stuck : (∀ k, rounds plainLink [plainCfg 2000] (fun _ => plainEnv false) k
        (idsTable maxLogConfigCount (Nat.le_refl _)).cfgs =
      some (idsTable maxLogConfigCount (Nat.le_refl _)).cfgs) ∧
      ¬ (idsTable maxLogConfigCount (Nat.le_refl _)).cfgs.Perm [plainCfg 2000] ∧
      round plainLink [] [plainCfg 1] (plainEnv true) = none := by
  -- the answer begins with the new config, and the agent leaves the loop there
  have hround : round plainLink [plainCfg 2000] (idsTable maxLogConfigCount (Nat.le_refl _)).cfgs
      (plainEnv false) = some (idsTable maxLogConfigCount (Nat.le_refl _)).cfgs := by
    decide +kernel
  refine ⟨fun k => ?_, fun hp => ?_, ?_⟩
  · induction k with
    | zero => rfl
    | succ k ih =>
      rw [rounds_succ, ih, bind_some, hround]
  · have hlen := hp.length_eq
    rw [length_idsTable] at hlen
    exact absurd hlen (by decide)
  · exact round_crash plainLink ⟨by simp [Sorted], by decide, by decide⟩ rfl
      (show 0 < maxDels by decide) (by decide) rfl

end DesPwd.L3.LogConfigSync
