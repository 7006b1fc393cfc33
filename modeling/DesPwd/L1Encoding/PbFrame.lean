import DesPwd.L1Encoding.BasicPacket

/-!
# The protobuf framing

A protobuf packet is `SPKG_PB`, the length of the head, the head, the length of the
body, the body, `EPKG_PB`. `IsPacketPb` tests a datagram for that and leaves both
lengths in the members that `CheckBasicPacketPb` and the handlers use
(lib/mtagent_api_open/basic_packet.cpp).

The lengths are signed. The test of the head length leaves room for six bytes
around the head, but what is read next is the number behind the head, which ends at
the ninth; and a negative head length passes the test.

* `isPacketPb_eq`: what the check returns does not depend on the members.
* `pb_frame_iff`: for which datagrams the check reads only bytes of the datagram
  and leaves lengths that describe it.
* `pb_frame_outside`: two that make it read outside.
-/
namespace DesPwd.L1.PbFrame

open Bytes L1.BasicPacket

/-- Nothing is read outside, and for a datagram that passes, the head, the length of
the body and the body stand one behind the other in front of the last byte. -/
def FrameOk (m : PbMembers) (buf : Bytes) : Prop :=
  ∃ m' r, m.isPacketPb buf = some (m', r) ∧ (r = true → 0 ≤ m'.m_iPbHeadLen ∧ 0 ≤ m'.m_iPbBodyLen ∧
      5 + m'.m_iPbHeadLen + 4 + m'.m_iPbBodyLen ≤ (buf.length : Int) - 1)

/-! ## The fields of the datagram -/

/-- The number behind the first byte. -/
def headLen (buf : Bytes) : Int := toS32 ((rd32 buf 1).getD 0)

/-- The number behind the head. -/
def bodyLen (buf : Bytes) : Int := toS32 ((rd32At buf (5 + headLen buf)).getD 0)

/-- The datagram gets as far as the number behind the head. -/
def Reached (buf : Bytes) : Prop :=
  10 < buf.length ∧ rd8 buf 0 = some spkgPb ∧ rd8 buf (buf.length - 1) = some epkgPb ∧
    wrap32 (headLen buf + 2 + 4) ≤ wrap32 buf.length

theorem rd32At_isSome_iff {b : Bytes} {i : Int} :
    (∃ n, rd32At b i = some n) ↔ 0 ≤ i ∧ i + 4 ≤ b.length := by
  unfold rd32At
  constructor
  · rintro ⟨n, h⟩
    split at h
    · cases h
    · obtain ⟨x, y, z, w, -, -, -, hw, -⟩ := rd32_bytes h
      have hlt := (List.getElem?_eq_some_iff.mp hw).1
      omega
  · intro h
    rw [if_neg (by omega)]
    exact rd32_isSome (by omega)

section Check

variable {buf : Bytes} (m : PbMembers)

theorem headLen_eq (h : 10 < buf.length) : ∃ n, rd32 buf 1 = some n ∧ headLen buf = toS32 n := by
  obtain ⟨n, hn⟩ := rd32_isSome (show 1 + 3 < buf.length by omega)
  exact ⟨n, hn, by rw [headLen, hn]; rfl⟩

theorem isPacketPb_of_reached (h : Reached buf) :
    m.isPacketPb buf = (rd32At buf (5 + headLen buf)).map fun n =>
      if wrap32 (headLen buf + toS32 n + 10) ≠ wrap32 buf.length then (⟨0, 0, false⟩, false)
      else (⟨headLen buf, toS32 n, true⟩, true) := by
  obtain ⟨hlong, hfirst, hlast, hhead⟩ := h
  obtain ⟨n, hn, hlen⟩ := headLen_eq hlong
  rw [hlen] at hhead ⊢
  rw [PbMembers.isPacketPb, isPacketPbIn, if_neg (by omega), hfirst, hlast, hn, List.append_nil]
  simp only [Option.bind_eq_bind, Option.bind_some, ne_eq, not_true, or_self, if_false,
    Int.not_lt.mpr hhead]
  rw [show (1 : Int) + 4 + toS32 n = 5 + toS32 n by omega]
  cases rd32At buf (5 + toS32 n) with
  | none => rfl
  | some k =>
    simp only [Option.bind_some, Option.map_some]
    split <;> rfl

theorem isPacketPb_of_not_reached (h : ¬ Reached buf) :
    ∃ m', m.isPacketPb buf = some (m', false) := by
  rw [PbMembers.isPacketPb, isPacketPbIn]
  by_cases hlong : buf.length ≤ 10
  · rw [if_pos hlong]
    exact ⟨m, rfl⟩
  obtain ⟨first, hfirst⟩ := rd8_isSome (show 0 < buf.length by omega)
  obtain ⟨last, hlast⟩ := rd8_isSome (show buf.length - 1 < buf.length by omega)
  obtain ⟨n, hn, hlen⟩ := headLen_eq (show 10 < buf.length by omega)
  rw [if_neg hlong, hfirst, hlast, hn]
  simp only [Option.bind_eq_bind, Option.bind_some]
  by_cases hends : first ≠ spkgPb ∨ last ≠ epkgPb
  · rw [if_pos hends]
    exact ⟨m, rfl⟩
  rw [if_neg hends]
  have hshort : wrap32 buf.length < wrap32 (toS32 n + 2 + 4) := by
    apply Int.not_le.mp
    intro hhead
    refine h ⟨by omega, ?_, ?_, by rw [hlen]; exact hhead⟩
    · rw [hfirst, show first = spkgPb by omega]
    · rw [hlast, show last = epkgPb by omega]
  rw [if_pos hshort]
  exact ⟨_, rfl⟩

/-- The members do not matter for what is returned. -/
theorem isPacketPb_eq (buf : Bytes) : isPacketPb buf = (m.isPacketPb buf).map Prod.snd := by
  by_cases h : Reached buf
  · rw [isPacketPb, isPacketPb_of_reached _ h, isPacketPb_of_reached _ h]
  · obtain ⟨m1, h1⟩ := isPacketPb_of_not_reached m h
    obtain ⟨m2, h2⟩ := isPacketPb_of_not_reached ⟨0, 0, false⟩ h
    rw [isPacketPb, h1, h2]
    rfl

end Check

/-! ## Lengths that pass -/

section Passed

variable {buf : Bytes} {n : Nat}

/-- A head length from -4 to -1 has ones in front, and so has the number that is
then read as the length of the body. -/
theorem bodyLen_neg (h : Reached buf) (hlo : -4 ≤ headLen buf) (hneg : headLen buf < 0)
    (hn : rd32At buf (5 + headLen buf) = some n) : toS32 n < 0 := by
  obtain ⟨k, hk, hlen⟩ := headLen_eq h.1
  obtain ⟨x, y, z, w, hx, hy, hz, hw, hsum⟩ := rd32_bytes hk
  rw [rd32At, if_neg (by omega)] at hn
  obtain ⟨x', y', z', w', hx', -, -, -, hsum'⟩ := rd32_bytes hn
  have := y.toNat_lt
  have := z.toNat_lt
  have := w.toNat_lt
  have hk' : k = (4294967296 + headLen buf).toNat := by
    rw [hlen] at hlo hneg ⊢
    unfold toS32 at hneg ⊢
    split at hneg <;> omega
  have hbig : 251 ≤ x'.toNat := by
    rcases (show headLen buf = -4 ∨ headLen buf = -3 ∨ headLen buf = -2 ∨ headLen buf = -1 by omega)
      with he | he | he | he <;> rw [he] at hx'
    · cases hx.symm.trans hx'
      omega
    · cases hy.symm.trans hx'
      omega
    · cases hz.symm.trans hx'
      omega
    · cases hw.symm.trans hx'
      omega
  have := x'.toNat_lt
  have := y'.toNat_lt
  have := z'.toNat_lt
  have := w'.toNat_lt
  unfold toS32
  omega

/-- With a head length of -5 the first byte of the datagram is read. -/
theorem bodyLen_of_neg_five (h : Reached buf) (he : headLen buf = -5)
    (hn : rd32At buf (5 + headLen buf) = some n) : n = 2080374783 := by
  obtain ⟨k, hk, hlen⟩ := headLen_eq h.1
  obtain ⟨x, y, z, w, hx, hy, hz, hw, hsum⟩ := rd32_bytes hk
  rw [he] at hn
  obtain ⟨x', y', z', w', hx', hy', hz', hw', hsum'⟩ := rd32_bytes hn
  cases hx.symm.trans hy'
  cases hy.symm.trans hz'
  cases hz.symm.trans hw'
  obtain ⟨f, hf, hfirst⟩ := rd8_eq_some h.2.1
  cases hf.symm.trans hx'
  have := w.toNat_lt
  have hk' : k = 4294967291 := by
    rw [hlen] at he
    unfold toS32 at he
    split at he <;> omega
  rw [spkgPb] at hfirst
  omega

/-- The length of the body is not -1: its last byte would be the last one. -/
theorem bodyLen_ne_neg_one (h : Reached buf) (he : headLen buf + 9 = buf.length)
    (hn : rd32At buf (5 + headLen buf) = some n) : toS32 n ≠ -1 := by
  have hlong := h.1
  rw [rd32At, if_neg (by omega)] at hn
  obtain ⟨x, y, z, w, -, -, -, hw, hsum⟩ := rd32_bytes hn
  obtain ⟨e, he', hlast⟩ := rd8_eq_some h.2.2.1
  rw [show (5 + headLen buf).toNat + 3 = buf.length - 1 by omega] at hw
  cases hw.symm.trans he'
  rw [epkgPb] at hlast
  intro hneg
  unfold toS32 at hneg
  split at hneg <;> omega

theorem rd32At_lt {b : Bytes} {i : Int} (h : rd32At b i = some n) : n < 4294967296 := by
  unfold rd32At at h
  split at h
  · cases h
  · exact rd32_lt h

theorem wrap32_eq_iff {x y : Int} : wrap32 x = wrap32 y ↔ x % 4294967296 = y % 4294967296 := by
  unfold wrap32
  constructor
  · intro h
    have hmod := congrArg (· % ((4294967296 : Nat) : Int)) h
    simp only [Int.bmod_emod] at hmod
    exact hmod
  · intro h
    rw [← Int.emod_bmod x, ← Int.emod_bmod y]
    exact congrArg (Int.bmod · 4294967296) h

/-- A datagram of less than two gigabytes whose number behind the head is inside
and that passes has lengths that are not negative. -/
theorem lens_nonneg (h : Reached buf) (hlo : -5 ≤ headLen buf) (hin : headLen buf + 9 ≤ buf.length)
    (hlen : buf.length < 2080374788) (hn : rd32At buf (5 + headLen buf) = some n)
    (heq : wrap32 (headLen buf + toS32 n + 10) = wrap32 buf.length) :
    0 ≤ headLen buf ∧ 0 ≤ toS32 n := by
  have hlong := h.1
  have hb := toS32_lt n (rd32At_lt hn)
  rw [wrap32_eq_iff] at heq
  have hhead : 0 ≤ headLen buf := by
    apply Int.not_lt.mp
    intro hneg
    by_cases hfive : headLen buf = -5
    · have h5 := bodyLen_of_neg_five h hfive hn
      subst h5
      rw [show toS32 2080374783 = 2080374783 from rfl] at heq
      omega
    · have := bodyLen_neg h (by omega) hneg hn
      omega
  by_cases hlast : headLen buf + 9 = buf.length
  · have := bodyLen_ne_neg_one h hlast hn
    omega
  · omega

end Passed

/-- **The protobuf framing.** The check reads only bytes of the datagram, and leaves
lengths that describe it, exactly if a datagram that gets as far as the number
behind its head has a head length of at least -5 for which that number is inside;
in a datagram of two gigabytes, whose length is not an `int`, also, if the lengths
add up, they must not be negative. -/
theorem pb_frame_iff (m : PbMembers) (buf : Bytes) : FrameOk m buf ↔
      (Reached buf → -5 ≤ headLen buf ∧ headLen buf + 9 ≤ buf.length ∧ (2080374788 ≤ buf.length →
          wrap32 (headLen buf + bodyLen buf + 10) = wrap32 buf.length →
          0 ≤ headLen buf ∧ 0 ≤ bodyLen buf)) := by
  by_cases h : Reached buf
  case neg =>
    obtain ⟨m', hm⟩ := isPacketPb_of_not_reached m h
    exact ⟨fun _ hr => absurd hr h, fun _ => ⟨m', false, hm, fun hf => by cases hf⟩⟩
  case pos =>
    unfold FrameOk
    rw [isPacketPb_of_reached m h]
    constructor
    · rintro ⟨m', r, hm, hframe⟩ -
      obtain ⟨n, hn, hm⟩ := Option.map_eq_some_iff.mp hm
      have hin := rd32At_isSome_iff.mp ⟨n, hn⟩
      have hbody : bodyLen buf = toS32 n := by rw [bodyLen, hn]; rfl
      refine ⟨by omega, by omega, fun _ heq => ?_⟩
      rw [hbody] at heq ⊢
      rw [if_neg (not_not_intro heq)] at hm
      cases hm
      exact ⟨(hframe rfl).1, (hframe rfl).2.1⟩
    · intro hcond
      obtain ⟨hlo, hin, hlarge⟩ := hcond h
      obtain ⟨n, hn⟩ := rd32At_isSome_iff.mpr
        (show 0 ≤ 5 + headLen buf ∧ 5 + headLen buf + 4 ≤ buf.length by omega)
      have hbody : bodyLen buf = toS32 n := by rw [bodyLen, hn]; rfl
      rw [hn, Option.map_some]
      by_cases heq : wrap32 (headLen buf + toS32 n + 10) = wrap32 buf.length
      · rw [if_neg (not_not_intro heq)]
        have hpos : 0 ≤ headLen buf ∧ 0 ≤ toS32 n := by
          by_cases hlen : buf.length < 2080374788
          · exact lens_nonneg h hlo hin hlen hn heq
          · rw [← hbody] at heq ⊢
            exact hlarge (by omega) heq
        refine ⟨_, _, rfl, fun _ => ⟨hpos.1, hpos.2, ?_⟩⟩
        have hb := toS32_lt n (rd32At_lt hn)
        rw [wrap32_eq_iff] at heq
        show 5 + headLen buf + 4 + toS32 n ≤ (buf.length : Int) - 1
        omega
      · rw [if_pos heq]
        exact ⟨_, _, rfl, fun hf => by cases hf⟩

/-- With 11 bytes and a head length of 5 the number behind the head ends three bytes
behind the datagram, with a head length of -6 it starts in front of it. -/
theorem pb_frame_outside :
    PbMembers.isPacketPb ⟨0, 0, false⟩ [123, 0, 0, 0, 5, 0, 0, 0, 0, 0, 125] = none ∧
      PbMembers.isPacketPb ⟨0, 0, false⟩ [123, 255, 255, 255, 250, 0, 0, 0, 0, 0, 125] = none := by
  decide +kernel

end DesPwd.L1.PbFrame
