import Mathlib.Algebra.Ring.Nat
import Mathlib.Data.Vector.Defs

/-!
# Byte strings

Reading big-endian numbers from a byte string: `none` is a read outside it.

* `rd32_append`, `rd8_append`: a read inside the front part of a string does
  not see what stands behind it.
* `rd16_put16`, `slice_of_rd16`: a number and its bytes.
* `rd32_flatMap`: the numbers of an array.
-/
namespace DesPwd.Bytes

open List Option UInt8

set_option linter.dupNamespace false in
abbrev Bytes := List UInt8

def rd8 (b : Bytes) (i : Nat) : Option Nat := b[i]?.map toNat

def rd16 (b : Bytes) (i : Nat) : Option Nat := do
  let x ← rd8 b i
  let y ← rd8 b (i + 1)
  pure (x * 256 + y)

def rd32 (b : Bytes) (i : Nat) : Option Nat := do
  let x ← rd16 b i
  let y ← rd16 b (i + 2)
  pure (x * 65536 + y)

def rd64 (b : Bytes) (i : Nat) : Option Nat := do
  let x ← rd32 b i
  let y ← rd32 b (i + 4)
  pure (x * 4294967296 + y)

/-- The two's complement value of 32 bits. -/
def toS32 (n : Nat) : Int := if n < 2147483648 then n else n - 4294967296

/-- The `n` bytes from `i` on. -/
def slice (b : Bytes) (i n : Nat) : Bytes := (b.drop i).take n

/-- The C string at the front of `b`, cut at `n` bytes; `none` when neither its
end nor `n` bytes lie inside `b`. -/
def cStr : Nat → Bytes → Option Bytes
  | 0, _ => some []
  | _ + 1, [] => none
  | n + 1, x :: b => if x = 0 then some [] else (cStr n b).map (x :: ·)

/-- A buffer after `d` was written to its front. -/
def overwrite (d buf : Bytes) : Bytes := d ++ buf.drop d.length

/-- The bytes of a text. Irreducible, since a text is not to be spelled out when two
terms that hold it are compared. -/
@[irreducible] def txt (s : String) : Bytes := s.toUTF8.data.toList

variable {d rest b : Bytes} {i n : Nat}

theorem rd8_append (h : i < d.length) : rd8 (d ++ rest) i = rd8 d i := by
  rw [rd8, rd8, getElem?_append_left h]

theorem rd16_append (h : i + 1 < d.length) : rd16 (d ++ rest) i = rd16 d i := by
  rw [rd16, rd16, rd8_append (by omega), rd8_append h]

theorem rd32_append (h : i + 3 < d.length) : rd32 (d ++ rest) i = rd32 d i := by
  rw [rd32, rd32, rd16_append (by omega), rd16_append h]

/-! A read behind the front part. -/

theorem rd8_append_right (d rest : Bytes) (i : Nat) : rd8 (d ++ rest) (d.length + i) = rd8 rest i := by
  rw [rd8, rd8, getElem?_append_right (Nat.le_add_right _ _), Nat.add_sub_cancel_left]

theorem rd16_append_right (d rest : Bytes) (i : Nat) :
    rd16 (d ++ rest) (d.length + i) = rd16 rest i := by
  rw [rd16, rd16, rd8_append_right, Nat.add_assoc, rd8_append_right]

theorem rd32_append_right (d rest : Bytes) (i : Nat) :
    rd32 (d ++ rest) (d.length + i) = rd32 rest i := by
  rw [rd32, rd32, rd16_append_right, Nat.add_assoc, rd16_append_right]

/-! ## Numbers in network order -/

def put16 (n : UInt16) : Bytes := [ofNat (n.toNat / 256), ofNat n.toNat]

def put32 (n : UInt32) : Bytes :=
  put16 (UInt16.ofNat (n.toNat / 65536)) ++ put16 (UInt16.ofNat n.toNat)

def put64 (n : UInt64) : Bytes :=
  put32 (UInt32.ofNat (n.toNat / 4294967296)) ++ put32 (UInt32.ofNat n.toNat)

@[simp] theorem length_put16 (n : UInt16) : (put16 n).length = 2 := rfl

@[simp] theorem length_put32 (n : UInt32) : (put32 n).length = 4 := rfl

@[simp] theorem length_put64 (n : UInt64) : (put64 n).length = 8 := rfl

/-! The server and the agent run on little-endian machines. -/

def le16 (n : UInt16) : Bytes := (put16 n).reverse

def le32 (n : UInt32) : Bytes := (put32 n).reverse

def htons (n : UInt16) : UInt16 := UInt16.ofNat (n.toNat % 256 * 256 + n.toNat / 256)

def htonl (n : UInt32) : UInt32 :=
  UInt32.ofNat (n.toNat % 256 * 16777216 + n.toNat / 256 % 256 * 65536 +
    n.toNat / 65536 % 256 * 256 + n.toNat / 16777216)

theorem put16_bytes {a b : Nat} (ha : a < 256) (hb : b < 256) :
    put16 (UInt16.ofNat (a * 256 + b)) = [ofNat a, ofNat b] := by
  have hmod : (a * 256 + b) % 2 ^ 16 = a * 256 + b := by omega
  have hdiv : (a * 256 + b) / 256 = a := by omega
  have hlow : ofNat (a * 256 + b) = ofNat b := by
    apply UInt8.toNat_inj.mp
    simp only [UInt8.toNat_ofNat']
    omega
  rw [put16, UInt16.toNat_ofNat', hmod, hdiv, hlow]

theorem put32_bytes {a b c d : Nat} (ha : a < 256) (hb : b < 256) (hc : c < 256) (hd : d < 256) :
    put32 (UInt32.ofNat (a * 16777216 + b * 65536 + c * 256 + d)) =
      [ofNat a, ofNat b, ofNat c, ofNat d] := by
  have hmod : (a * 16777216 + b * 65536 + c * 256 + d) % 2 ^ 32 =
      a * 16777216 + b * 65536 + c * 256 + d := by omega
  have hdiv : (a * 16777216 + b * 65536 + c * 256 + d) / 65536 = a * 256 + b := by omega
  have hlow : UInt16.ofNat (a * 16777216 + b * 65536 + c * 256 + d) = UInt16.ofNat (c * 256 + d) := by
    apply UInt16.toNat_inj.mp
    simp only [UInt16.toNat_ofNat']
    omega
  rw [put32, UInt32.toNat_ofNat', hmod, hdiv, hlow, put16_bytes ha hb, put16_bytes hc hd]
  rfl

theorem le16_htons (n : UInt16) : le16 (htons n) = put16 n := by
  have hlt := n.toNat_lt
  obtain ⟨a, b, ha, hb, hn⟩ : ∃ a b, a < 256 ∧ b < 256 ∧ n.toNat = a * 256 + b :=
    ⟨n.toNat / 256, n.toNat % 256, by omega, by omega, by omega⟩
  have hput : put16 n = [ofNat a, ofNat b] := by
    rw [← put16_bytes ha hb, ← hn, UInt16.ofNat_toNat]
  have hlow : n.toNat % 256 = b := by omega
  have hhigh : n.toNat / 256 = a := by omega
  rw [le16, htons, hlow, hhigh, put16_bytes hb ha, hput]
  rfl

theorem le32_htonl (n : UInt32) : le32 (htonl n) = put32 n := by
  have hlt := n.toNat_lt
  obtain ⟨a, b, c, d, ha, hb, hc, hd, hn⟩ : ∃ a b c d, a < 256 ∧ b < 256 ∧ c < 256 ∧ d < 256 ∧
      n.toNat = a * 16777216 + b * 65536 + c * 256 + d :=
    ⟨n.toNat / 16777216, n.toNat / 65536 % 256, n.toNat / 256 % 256, n.toNat % 256, by omega,
      by omega, by omega, by omega, by omega⟩
  have hput : put32 n = [ofNat a, ofNat b, ofNat c, ofNat d] := by
    rw [← put32_bytes ha hb hc hd, ← hn, UInt32.ofNat_toNat]
  have h1 : n.toNat % 256 = d := by omega
  have h2 : n.toNat / 256 % 256 = c := by omega
  have h3 : n.toNat / 65536 % 256 = b := by omega
  have h4 : n.toNat / 16777216 = a := by omega
  rw [le32, htonl, h1, h2, h3, h4, put32_bytes hd hc hb ha, hput]
  rfl

theorem rd16_put16 (n : UInt16) (rest : Bytes) : rd16 (put16 n ++ rest) 0 = some n.toNat := by
  have := n.toNat_lt
  simp [rd16, rd8, put16, cons_append, map_some, toNat_ofNat', bind_eq_bind,
    bind_some, Option.pure_def, Option.some.injEq]
  omega

theorem rd32_put32 (n : UInt32) (rest : Bytes) : rd32 (put32 n ++ rest) 0 = some n.toNat := by
  have hlt := n.toNat_lt
  have hlo := rd16_append_right (put16 (UInt16.ofNat (n.toNat / 65536)))
    (put16 (UInt16.ofNat n.toNat) ++ rest) 0
  rw [rd16_put16, length_put16] at hlo
  rw [rd32, put32, append_assoc, rd16_put16, hlo]
  simp only [UInt16.toNat_ofNat', bind_eq_bind, bind_some, Option.pure_def, Option.some.injEq]
  omega

theorem rd_flatMap {α : Type} {rd : Bytes → Nat → Option Nat} {put : α → Bytes} {val : α → Nat}
    {k : Nat} (hright : ∀ d rest i, rd (d ++ rest) (d.length + i) = rd rest i)
    (hput : ∀ n rest, rd (put n ++ rest) 0 = some (val n)) (hk : ∀ n, (put n).length = k)
    (d : Bytes) (ns : List α) (rest : Bytes) (h : i < ns.length) :
    rd (d ++ (ns.flatMap put ++ rest)) (d.length + k * i) = some (val ns[i]) := by
  induction ns generalizing d i with
  | nil => simp at h
  | cons n ns ih =>
    rw [flatMap_cons, append_assoc]
    cases i with
    | zero => exact (hright d _ 0).trans (hput n _)
    | succ i =>
      have hstep := ih (d ++ put n) (by simpa using h)
      rw [append_assoc, length_append, hk, Nat.add_assoc, Nat.add_comm k] at hstep
      exact hstep

theorem rd32_flatMap (d : Bytes) (ns : List UInt32) (rest : Bytes) (h : i < ns.length) :
    rd32 (d ++ (ns.flatMap put32 ++ rest)) (d.length + 4 * i) = some ns[i].toNat :=
  rd_flatMap rd32_append_right rd32_put32 length_put32 d ns rest h

theorem rd8_eq_some (h : rd8 b i = some n) : ∃ x, b[i]? = some x ∧ x.toNat = n := by
  simpa [rd8] using h

theorem slice_of_rd16 (h : rd16 b i = some n) :
    slice b i 2 = put16 (UInt16.ofNat n) ∧ n < 65536 := by
  simp only [rd16, bind_eq_bind, bind_eq_some_iff, Option.pure_def, Option.some.injEq] at h
  obtain ⟨x, hx, y, hy, rfl⟩ := h
  obtain ⟨x, hbx, rfl⟩ := rd8_eq_some hx
  obtain ⟨y, hby, rfl⟩ := rd8_eq_some hy
  have hxlt := x.toNat_lt
  have hylt := y.toNat_lt
  have hslice : slice b i 2 = [x, y] := by
    obtain ⟨hi, hbx⟩ := List.getElem?_eq_some_iff.mp hbx
    obtain ⟨hi', hby⟩ := List.getElem?_eq_some_iff.mp hby
    rw [slice, drop_eq_getElem_cons hi, drop_eq_getElem_cons hi', hbx, hby]
    rfl
  refine ⟨?_, by omega⟩
  rw [hslice, put16_bytes hxlt hylt, UInt8.ofNat_toNat, UInt8.ofNat_toNat]

theorem rd32_bytes (h : rd32 b i = some n) :
    ∃ x y z w, b[i]? = some x ∧ b[i + 1]? = some y ∧ b[i + 2]? = some z ∧
      b[i + 3]? = some w ∧
      n = x.toNat * 16777216 + y.toNat * 65536 + z.toNat * 256 + w.toNat := by
  simp only [rd32, rd16, bind_eq_bind, bind_eq_some_iff, Option.pure_def, Option.some.injEq] at h
  obtain ⟨-, ⟨x, hx, y, hy, rfl⟩, -, ⟨z, hz, w, hw, rfl⟩, rfl⟩ := h
  obtain ⟨x, hbx, rfl⟩ := rd8_eq_some hx
  obtain ⟨y, hby, rfl⟩ := rd8_eq_some hy
  obtain ⟨z, hbz, rfl⟩ := rd8_eq_some hz
  obtain ⟨w, hbw, rfl⟩ := rd8_eq_some hw
  exact ⟨x, y, z, w, hbx, hby, hbz, hbw, by omega⟩

theorem rd32_lt (h : rd32 b i = some n) : n < 4294967296 := by
  obtain ⟨x, y, z, w, -, -, -, -, rfl⟩ := rd32_bytes h
  have := x.toNat_lt
  have := y.toNat_lt
  have := z.toNat_lt
  have := w.toNat_lt
  omega

theorem toS32_lt (n : Nat) (h : n < 4294967296) : -2147483648 ≤ toS32 n ∧ toS32 n < 2147483648 := by
  unfold toS32
  split <;> omega

theorem slice_of_rd8 (h : rd8 b i = some n) : slice b i 1 = [UInt8.ofNat n] := by
  obtain ⟨x, hx, rfl⟩ := rd8_eq_some h
  obtain ⟨hi, hx⟩ := List.getElem?_eq_some_iff.mp hx
  rw [slice, drop_eq_getElem_cons hi, hx, UInt8.ofNat_toNat]
  rfl

theorem slice_append (d x rest : Bytes) : slice (d ++ (x ++ rest)) d.length x.length = x := by
  rw [slice, drop_left, take_left]

theorem rd8_isSome (h : i < b.length) : ∃ n, rd8 b i = some n :=
  ⟨_, by rw [rd8, getElem?_eq_getElem h, map_some]⟩

theorem rd16_isSome (h : i + 1 < b.length) : ∃ n, rd16 b i = some n := by
  obtain ⟨x, hx⟩ := rd8_isSome (b := b) (i := i) (by omega)
  obtain ⟨y, hy⟩ := rd8_isSome h
  exact ⟨_, by rw [rd16, hx, hy]; rfl⟩

theorem rd32_isSome (h : i + 3 < b.length) : ∃ n, rd32 b i = some n := by
  obtain ⟨x, hx⟩ := rd16_isSome (b := b) (i := i) (by omega)
  obtain ⟨y, hy⟩ := rd16_isSome h
  exact ⟨_, by rw [rd32, hx, hy]; rfl⟩

theorem rd64_isSome (h : i + 7 < b.length) : ∃ n, rd64 b i = some n := by
  obtain ⟨x, hx⟩ := rd32_isSome (b := b) (i := i) (by omega)
  obtain ⟨y, hy⟩ := rd32_isSome h
  exact ⟨_, by rw [rd64, hx, hy]; rfl⟩

theorem drop_eq_slice_append (b : Bytes) (i n : Nat) : b.drop i = slice b i n ++ b.drop (i + n) := by
  rw [slice, ← drop_drop, take_append_drop]

theorem toInt_eq_toS32 (u : UInt32) : u.toInt32.toInt = toS32 u.toNat := by
  have hcond : u.toInt32.toInt = if 2 * u.toNat < 2 ^ 32 then (u.toNat : Int) else u.toNat - 2 ^ 32 :=
    BitVec.toInt_eq_toNat_cond _
  rw [hcond, toS32]
  split <;> split <;> omega

theorem toInt_toInt32 {u : UInt32} (h : u.toNat < 2 ^ 31) : u.toInt32.toInt = u.toNat := by
  rw [toInt_eq_toS32, toS32, if_pos (by omega)]

theorem toNat_toUInt32 {a : Int32} (h : 0 < a.toInt) : (a.toUInt32.toNat : Int) = a.toInt := by
  have hlt := a.toUInt32.toNat_lt
  have hval : a.toInt = toS32 a.toUInt32.toNat := toInt_eq_toS32 a.toUInt32
  unfold toS32 at hval
  split at hval <;> omega

end DesPwd.Bytes
