import DesPwd.Core.CharBuf

/-!
# Byte arrays of a fixed size

A `Buf n` is a C array of `n` characters; a write outside it is `none`. Text
is usually put together in such an array piece after piece: `t <+: b.bytes`
says that the array holds `t` at its front, and `memcpy_after` and
`snprintf_after` add the next piece.
-/
namespace DesPwd

open Bytes List

structure Buf (n : Nat) where
  bytes : Bytes
  length_eq : bytes.length = n
  deriving DecidableEq

namespace Buf

variable {n : Nat} {b : Buf n} {t src : Bytes}

def zero (n : Nat) : Buf n := ⟨List.replicate n 0, length_replicate⟩

/-- `memcpy(b + off, src, ..)` of all bytes of `src` -/
def memcpy (b : Buf n) (off : Nat) (src : Bytes) : Option (Buf n) :=
  if h : off + src.length ≤ n then
    some ⟨b.bytes.take off ++ (src ++ b.bytes.drop (off + src.length)), by
      have := b.length_eq
      simp only [length_append, length_take, length_drop]
      omega⟩
  else none

/-- `snprintf(b + off, size, ..)` of a format that prints `text` -/
def snprintf (b : Buf n) (off size : Nat) (text : Bytes) : Option (Buf n) :=
  if size = 0 then some b else b.memcpy off (text.take (size - 1) ++ [0])

/-- `strncpy(b, s, k)` -/
def strncpy (b : Buf n) (k : Nat) (s : Bytes) : Option (Buf n) :=
  b.memcpy 0 ((s ++ List.replicate k 0).take k)

/-- The C string in the array; `none` when it has no end there. -/
def cStr (b : Buf n) : Option Bytes := Bytes.cStr (n + 1) b.bytes

theorem memcpy_after (src : Bytes) (h : t <+: b.bytes) (hn : t.length + src.length ≤ n) :
    ∃ b', b.memcpy t.length src = some b' ∧ t ++ src <+: b'.bytes := by
  refine ⟨_, dif_pos hn, ?_⟩
  show t ++ src <+: b.bytes.take t.length ++ (src ++ _)
  rw [← prefix_iff_eq_take.mp h, ← append_assoc]
  exact prefix_append _ _

theorem memcpy_front (b : Buf n) (src : Bytes) (hn : src.length ≤ n) :
    ∃ b', b.memcpy 0 src = some b' ∧ src <+: b'.bytes :=
  memcpy_after src nil_prefix (by simpa using hn)

theorem memcpy_take (b : Buf n) (src : Bytes) (h : n ≤ src.length) :
    ∃ b', b.memcpy 0 (src.take n) = some b' ∧ b'.bytes = src.take n := by
  obtain ⟨b', hb, hp⟩ := b.memcpy_front (src.take n) (length_take_le ..)
  exact ⟨b', hb, (hp.eq_of_length (by rw [length_take, b'.length_eq, Nat.min_eq_left h])).symm⟩

theorem snprintf_after (size : Nat) (src : Bytes) (h : t <+: b.bytes) (hsize : src.length < size)
    (hn : t.length + src.length < n) :
    ∃ b', b.snprintf t.length size src = some b' ∧ t ++ src <+: b'.bytes := by
  obtain ⟨b', hb, hp⟩ := memcpy_after (src ++ [0]) h (by
    rw [length_append, length_singleton]; omega)
  refine ⟨b', ?_, List.IsPrefix.trans ?_ hp⟩
  · rw [snprintf, if_neg (by omega), take_of_length_le (by omega), hb]
  · rw [← append_assoc]
    exact prefix_append _ _

theorem cStr_of_prefix (h : t ++ [0] <+: b.bytes) (ht : 0 ∉ t) : b.cStr = some t := by
  obtain ⟨rest, hrest⟩ := h
  have hlen := congrArg List.length hrest
  rw [b.length_eq, length_append, length_append] at hlen
  rw [cStr, ← hrest, append_assoc]
  exact cStr_append ht (by omega)

theorem slice_of_prefix {i k : Nat} (h : t <+: b.bytes) (hk : i + k ≤ t.length) :
    slice b.bytes i k = slice t i k := by
  obtain ⟨rest, hrest⟩ := h
  rw [← hrest, slice, slice, drop_append_of_le_length (by omega),
    take_append_of_le_length (by rw [length_drop]; omega)]

theorem take_of_prefix {k : Nat} (h : t <+: b.bytes) (hk : k ≤ t.length) :
    b.bytes.take k = t.take k := by
  obtain ⟨rest, hrest⟩ := h
  rw [← hrest, take_append_of_le_length hk]

end Buf

end DesPwd
