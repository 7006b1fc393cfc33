import DesPwd.L4App.AttrServer

/-!
# slog_monitor_server: the string nodes of a report

A report of string attributes is a sequence of `StrAttrNodeClient`, each with its
string behind it. The loop of `OnRawDataClientAttr` and the same loop of
`DealCgiReportAttr`, for the reports of the web interface, turn the numbers of a
node to host order where they stand and go on behind the string. The length of the
string is a signed number of the sender. The sum in which it is tested against the
content is a `size_t`, so a negative length passes as long as it does not lead in
front of the content: the loop then goes back to bytes that it has read.

One iteration is modelled, for a content in front of any other memory. A string that
does not end in that memory is `none`; the node is added all the same.

* `readStrAttrs_succ`: the loop of `AttrServer` is made of these iterations.
* `str_attr_decode_iff`: the loop advances inside the content and ends exactly if it
  adds no node with a negative length.
* `str_attr_decode_stays`: a node after which it has not moved.
-/
namespace DesPwd.L4.StrAttrDecode

open Bytes L1.BasicPacket L4.AttrServer Option
open List hiding Vector

/-- A number as a `size_t`. -/
def sizeT (x : Int) : Nat := (x % 18446744073709551616).toNat

/-- The loop between two iterations; `mem` is the memory from `m_pstCmdContent` on. -/
structure Loop where
  mem : Bytes
  iRead : Int
  deriving DecidableEq

/-- A node that was added to the report. -/
structure StrNode where
  iStrAttrId : Nat
  iStrVal : Nat
  iStrLen : Int
  szStrInfo : Option Bytes
  deriving DecidableEq

inductive Iter where
  | done
  /-- `ERR_INVALID_PACKET` -/
  | refused
  | added (nd : StrNode) (s : Loop)
  deriving DecidableEq

/-- mirrors slog_monitor_server/udp_sock.cpp:2239-2261 and 2128-2150 -/
def iter (wCmdContentLen : Nat) (s : Loop) : Option Iter := do
  if wCmdContentLen < sizeT (s.iRead + strAttrNodeLen) then pure .done
  else
    let iStrAttrId ← rd32At s.mem s.iRead
    let iStrVal ← rd32At s.mem (s.iRead + 4)
    let iStrLen := toS32 (← rd32At s.mem (s.iRead + 8))
    let i := s.iRead.toNat
    let mem := swap32 (swap32 (swap32 s.mem i) (i + 4)) (i + 8)
    let iNext := s.iRead + strAttrNodeLen + iStrLen
    if wCmdContentLen < sizeT iNext then pure .refused
    else
      let rest := mem.drop (i + strAttrNodeLen)
      pure (.added ⟨iStrAttrId, iStrVal, iStrLen, cStr (rest.length + 1) rest⟩ ⟨mem, wrap32 iNext⟩)

/-- The whole loop, for at most `n` iterations. -/
def runLoop (wCmdContentLen : Nat) : Nat → Loop → List StrNode → Option (Except Err (List StrNode))
  | 0, _, _ => none
  | n + 1, s, nds => do
    match ← iter wCmdContentLen s with
    | .done => pure (.ok nds)
    | .refused => pure (.error .invalidPacket)
    | .added nd s => runLoop wCmdContentLen n s (nds ++ [nd])

/-- The states in which an iteration starts. -/
inductive Reaches (wCmdContentLen : Nat) (start : Loop) : Loop → Prop where
  | start : Reaches wCmdContentLen start start
  | next {s s' : Loop} {nd : StrNode} (h : Reaches wCmdContentLen start s)
      (hi : iter wCmdContentLen s = some (.added nd s')) : Reaches wCmdContentLen start s'

/-- The loop has moved on inside the content, and the node and its string are
inside. -/
structure Advances (wCmdContentLen : Nat) (s : Loop) (nd : StrNode) (s' : Loop) : Prop where
  lt : s.iRead < s'.iRead
  nonneg : 0 ≤ s'.iRead
  le : s'.iRead ≤ wCmdContentLen
  node : s.iRead + strAttrNodeLen ≤ wCmdContentLen
  strLen : 0 ≤ nd.iStrLen
  str : s.iRead + strAttrNodeLen + nd.iStrLen ≤ wCmdContentLen

/-- The length in a node inside the content is not negative, or takes the loop in front of it. -/
def LenOk (wCmdContentLen : Nat) (s : Loop) : Prop :=
  s.iRead + strAttrNodeLen ≤ wCmdContentLen → ∀ n, rd32At s.mem (s.iRead + 8) = some n →
    0 ≤ s.iRead + strAttrNodeLen + toS32 n → 0 ≤ toS32 n

/-! ## One iteration -/

section Iteration

variable {len : Nat} {s s' : Loop} {nd : StrNode}

@[simp] theorem length_swap32 (b : Bytes) {i : Nat} (h : i + 4 ≤ b.length) :
    (swap32 b i).length = b.length := by
  simp only [swap32, slice, length_append, length_take, length_reverse, length_drop]
  omega

/-- The loop is inside its content. -/
structure Inside (len : Nat) (s : Loop) : Prop where
  nonneg : 0 ≤ s.iRead
  le : s.iRead ≤ len
  mem : len ≤ s.mem.length

theorem sizeT_of_nonneg {x : Int} (h0 : 0 ≤ x) (h : x < 18446744073709551616) :
    sizeT x = x.toNat := by
  rw [sizeT, Int.emod_eq_of_lt h0 h]

/-- A number of 33 bits that is small as a `size_t` is small and not negative. -/
theorem of_sizeT_le {x : Int} (hlo : -4294967296 ≤ x) (hhi : x < 4294967296) (hlen : len < 65536)
    (h : sizeT x ≤ len) : 0 ≤ x ∧ x ≤ len := by
  unfold sizeT at h
  omega

/-- All that an iteration does: it ends, or it reads a node inside the content. -/
theorem Inside.iter_cases (h : Inside len s) (hlen : len < 65536) :
    (iter len s = some .done ∧ (len : Int) < s.iRead + strAttrNodeLen) ∨
    (s.iRead + strAttrNodeLen ≤ len ∧
      ∃ n, rd32At s.mem (s.iRead + 8) = some n ∧
        ((iter len s = some .refused ∧ (s.iRead + strAttrNodeLen + toS32 n < 0 ∨
            (len : Int) < s.iRead + strAttrNodeLen + toS32 n)) ∨
          ∃ nd s', iter len s = some (.added nd s') ∧ nd.iStrLen = toS32 n ∧
            s'.iRead = s.iRead + strAttrNodeLen + toS32 n ∧ 0 ≤ s'.iRead ∧ s'.iRead ≤ len ∧
            s'.mem.length = s.mem.length)) := by
  obtain ⟨hnonneg, hle, hmem⟩ := h
  have hnode : strAttrNodeLen = 12 := rfl
  have hsize : sizeT (s.iRead + strAttrNodeLen) = (s.iRead + strAttrNodeLen).toNat :=
    sizeT_of_nonneg (by omega) (by omega)
  unfold iter
  by_cases hend : len < sizeT (s.iRead + strAttrNodeLen)
  · rw [if_pos hend]
    exact .inl ⟨rfl, by omega⟩
  rw [if_neg hend]
  right
  have hin : s.iRead + strAttrNodeLen ≤ len := by omega
  have hread : ∀ k, 0 ≤ k → k ≤ 8 → ∃ n, rd32At s.mem (s.iRead + k) = some n := by
    intro k h0 h8
    rw [rd32At, if_neg (by omega)]
    exact rd32_isSome (by omega)
  obtain ⟨id, hid⟩ := hread 0 (by decide) (by decide)
  obtain ⟨val, hval⟩ := hread 4 (by decide) (by decide)
  obtain ⟨n, hn⟩ := hread 8 (by decide) (by decide)
  rw [Int.add_zero] at hid
  rw [hid, hval, hn]
  have hn' : n < 4294967296 := by
    rw [rd32At, if_neg (by omega)] at hn
    exact rd32_lt hn
  obtain ⟨hlo, hhi⟩ := toS32_lt n hn'
  refine ⟨hin, n, rfl, ?_⟩
  simp only [bind_eq_bind, bind_some]
  by_cases hnext : len < sizeT (s.iRead + strAttrNodeLen + toS32 n)
  · rw [if_pos hnext]
    left
    refine ⟨rfl, ?_⟩
    by_cases hneg : s.iRead + strAttrNodeLen + toS32 n < 0
    · exact .inl hneg
    · rw [sizeT_of_nonneg (by omega) (by omega)] at hnext
      omega
  · rw [if_neg hnext]
    right
    obtain ⟨h0, hl⟩ := of_sizeT_le (by omega) (by omega) hlen (Nat.not_lt.mp hnext)
    have hwrap : wrap32 (s.iRead + strAttrNodeLen + toS32 n) =
        s.iRead + strAttrNodeLen + toS32 n := by
      apply Int.bmod_eq_of_le <;> omega
    refine ⟨_, _, rfl, rfl, hwrap, ?_, ?_, ?_⟩
    · rw [hwrap]; exact h0
    · rw [hwrap]; exact hl
    · have hl1 := length_swap32 s.mem (i := s.iRead.toNat) (by omega)
      have hl2 := length_swap32 (swap32 s.mem s.iRead.toNat) (i := s.iRead.toNat + 4) (by omega)
      exact (length_swap32 _ (by omega)).trans (hl2.trans hl1)

theorem Inside.next (h : Inside len s) (hlen : len < 65536)
    (hi : iter len s = some (.added nd s')) : Inside len s' := by
  rcases h.iter_cases hlen with ⟨hd, -⟩ | ⟨-, k, -, ⟨hr, -⟩ | ⟨nd1, s1, ha, -, -, h0, hl, hm⟩⟩
  · rw [hd] at hi
    cases hi
  · rw [hr] at hi
    cases hi
  · rw [ha] at hi
    cases hi
    exact ⟨h0, hl, by rw [hm]; exact h.mem⟩

theorem Inside.reaches {start : Loop} (h : Inside len start) (hlen : len < 65536)
    (hr : Reaches len start s) : Inside len s := by
  induction hr with
  | start => exact h
  | next _ hi ih => exact ih.next hlen hi

/-- A node with a length that is not negative moves the loop on. -/
theorem Inside.advances (h : Inside len s) (hlen : len < 65536)
    (hi : iter len s = some (.added nd s')) (hok : LenOk len s) : Advances len s nd s' := by
  have hnode : strAttrNodeLen = 12 := rfl
  rcases h.iter_cases hlen with ⟨hd, -⟩ | ⟨hin, k, hn, ⟨hr, -⟩ | ⟨nd1, s1, ha, hk, hs, h0, hl, -⟩⟩
  · rw [hd] at hi
    cases hi
  · rw [hr] at hi
    cases hi
  · rw [ha] at hi
    cases hi
    have hpos := hok hin k hn (by omega)
    exact ⟨by omega, h0, hl, hin, by omega, by omega⟩

/-- With such nodes only, the loop ends: each takes at least the twelve bytes of its
head. -/
theorem Inside.terminates {start : Loop} (hlen : len < 65536)
    (hok : ∀ s, Reaches len start s → LenOk len s) :
    ∀ (n : Nat) {s} nds, Reaches len start s → Inside len s →
      (len : Int) < s.iRead + 12 * n → ∃ r, runLoop len n s nds = some r := by
  have hnode : strAttrNodeLen = 12 := rfl
  intro n
  induction n with
  | zero =>
    intro s nds _ hs hn
    have := hs.le
    omega
  | succ n ih =>
    intro s nds hr hs hn
    unfold runLoop
    rcases hs.iter_cases hlen with
      ⟨hd, -⟩ | ⟨hin, k, hread, ⟨href, -⟩ | ⟨nd, s', ha, -, hs', hnext, -⟩⟩
    · rw [hd]
      exact ⟨_, rfl⟩
    · rw [href]
      exact ⟨_, rfl⟩
    · rw [ha]
      have h0 := hok s hr hin k hread (by omega)
      exact ih _ (hr.next ha) (hs.next hlen ha) (by omega)

end Iteration

/-- The loop of `AttrServer` is made of these iterations. -/
theorem readStrAttrs_succ {len n iRead : Nat} {b : Bytes} {attrs : List AttrInfo}
    (h : Inside len ⟨b, iRead⟩) (hlen : len < 65536) :
    readStrAttrs len (n + 1) b iRead attrs = (iter len ⟨b, iRead⟩).bind fun
      | .done => some (.ok attrs)
      | .refused => some (.error .invalidPacket)
      | .added nd s => nd.szStrInfo.bind fun str =>
          readStrAttrs len n s.mem s.iRead.toNat
            (attrs ++ [⟨nd.iStrAttrId, nd.iStrVal, some str⟩]) := by
  have hnode : strAttrNodeLen = 12 := rfl
  have hle : (iRead : Int) ≤ len := h.le
  have hsize : sizeT ((iRead : Int) + strAttrNodeLen) = iRead + strAttrNodeLen :=
    sizeT_of_nonneg (by omega) (by omega)
  rw [readStrAttrs, iter]
  dsimp only
  by_cases hin : iRead + strAttrNodeLen ≤ len
  · rw [if_pos hin, if_neg (by omega)]
    have hat : ∀ k : Nat, rd32At b ((iRead : Int) + k) = rd32 b (iRead + k) := fun k => by
      rfl
    have hat0 : rd32At b (iRead : Int) = rd32 b iRead := hat 0
    rw [show ((iRead : Int) + 4) = iRead + (4 : Nat) from rfl, hat,
      show ((iRead : Int) + 8) = iRead + (8 : Nat) from rfl, hat]
    simp only [bind_eq_bind, bind_assoc]
    refine congrArg _ (funext fun id => congrArg _ (funext fun val => ?_))
    cases hn : rd32 b (iRead + 8) with
    | none => rfl
    | some k =>
      obtain ⟨hlo, hhi⟩ := toS32_lt k (rd32_lt hn)
      simp only [bind_some, Int.toNat_natCast]
      by_cases hnext : len < sizeT ((iRead : Int) + strAttrNodeLen + toS32 k)
      · rw [if_pos hnext, if_pos]
        · rfl
        by_cases hneg : (iRead : Int) + strAttrNodeLen + toS32 k < 0
        · exact .inl hneg
        · rw [sizeT_of_nonneg (by omega) (by omega)] at hnext
          omega
      · obtain ⟨h0, hl⟩ := of_sizeT_le (by omega) (by omega) hlen (Nat.not_lt.mp hnext)
        have hwrap : wrap32 ((iRead : Int) + strAttrNodeLen + toS32 k) =
            iRead + strAttrNodeLen + toS32 k := by
          apply Int.bmod_eq_of_le <;> omega
        rw [if_neg hnext, if_neg (by omega)]
        simp [hwrap]
  · rw [if_neg hin, if_pos (by omega)]
    rfl

/-- **The string nodes of a report.** For every content, and whatever stands behind
it: the loop moves on inside the content with every node that it adds, the node and
its string are inside, and it ends, exactly if no node that it adds has a negative
length. -/
theorem str_attr_decode_iff (wCmdContentLen : UInt16) (content : Vector UInt8 wCmdContentLen.toNat)
    (rest : Bytes) :
    ((∀ s nd s', Reaches wCmdContentLen.toNat ⟨content.toList ++ rest, 0⟩ s →
        iter wCmdContentLen.toNat s = some (.added nd s') →
        Advances wCmdContentLen.toNat s nd s') ∧
      ∃ n r, runLoop wCmdContentLen.toNat n ⟨content.toList ++ rest, 0⟩ [] = some r) ↔
    ∀ s, Reaches wCmdContentLen.toNat ⟨content.toList ++ rest, 0⟩ s →
      LenOk wCmdContentLen.toNat s := by
  have hlen := wCmdContentLen.toNat_lt
  have hstart : Inside wCmdContentLen.toNat ⟨content.toList ++ rest, 0⟩ :=
    ⟨Int.le_refl _, Int.natCast_nonneg _, by simp⟩
  constructor
  · intro h s hr hin n hn h0
    by_contra hneg
    rcases (hstart.reaches hlen hr).iter_cases hlen with
      ⟨-, hend⟩ | ⟨-, k, hk, ⟨-, hout⟩ | ⟨nd, s', ha, hnd, -⟩⟩
    · omega
    · cases hn.symm.trans hk
      omega
    · cases hn.symm.trans hk
      exact hneg (hnd ▸ (h.1 s nd s' hr ha).strLen)
  intro hok
  refine ⟨fun s nd s' hr hi => ?_, ?_⟩
  · exact (hstart.reaches hlen hr).advances hlen hi (hok s hr)
  · obtain ⟨r, hr⟩ := Inside.terminates hlen hok (wCmdContentLen.toNat + 1) [] .start hstart (by
      dsimp only
      omega)
    exact ⟨_, r, hr⟩

/-- A node whose string has the length -12 is added, and the loop is where it was. -/
theorem str_attr_decode_stays : iter 12 ⟨[0, 0, 0, 1, 0, 0, 0, 1, 255, 255, 255, 244], 0⟩ =
      some (.added ⟨1, 1, -12, none⟩ ⟨[1, 0, 0, 0, 1, 0, 0, 0, 244, 255, 255, 255], 0⟩) := by
  decide +kernel

end DesPwd.L4.StrAttrDecode
