import Mathlib.Algebra.Ring.Nat
import Mathlib.Data.Vector.Defs

/-!
# Files of bytes and images of records in them

A `ByteFile` is a size and the byte at every position. `write` puts bytes at a
position, past the end too, `fill` puts zeros, and `read` takes exactly `n`
bytes or fails. An `Image` is the memory image in which a record is written
and read back: only its size and that reading undoes writing matter.

* `read_write`: what was written is read back.
* `read_write_of_disjoint`: a write elsewhere does not change what is read.
-/
namespace DesPwd

open List hiding Vector

structure ByteFile where
  size : Nat
  byte : Nat → UInt8

namespace ByteFile

def empty : ByteFile := ⟨0, fun _ => 0⟩

def write (f : ByteFile) (p : Nat) (bs : List UInt8) : ByteFile where
  size := max f.size (p + bs.length)
  byte k := if k < p then f.byte k else (bs[k - p]?).getD (f.byte k)

/-- `n` zero bytes at `p`. -/
def fill (f : ByteFile) (p n : Nat) : ByteFile where
  size := max f.size (p + n)
  byte k := if p ≤ k ∧ k < p + n then 0 else f.byte k

def read (f : ByteFile) (p n : Nat) : Option (List UInt8) :=
  if p + n ≤ f.size then some ((List.range n).map fun k => f.byte (p + k)) else none

variable {f : ByteFile} {p q n : Nat} {bs : List UInt8}

theorem read_write (f : ByteFile) (p : Nat) (bs : List UInt8) :
    (f.write p bs).read p bs.length = some bs := by
  have hsize : p + bs.length ≤ (f.write p bs).size := le_max_right ..
  unfold read
  rw [if_pos hsize]
  congr 1
  apply ext_getElem?
  intro k
  by_cases hk : k < bs.length
  · rw [getElem?_map, getElem?_range hk, Option.map_some, getElem?_eq_getElem hk]
    simp only [write, if_neg (not_lt.2 (Nat.le_add_right p k)), Nat.add_sub_cancel_left,
      getElem?_eq_getElem hk, Option.getD_some]
  · simp [Nat.le_of_not_lt hk]

theorem read_congr {g : ByteFile} (hsize : q + n ≤ g.size ↔ q + n ≤ f.size)
    (hbyte : ∀ k, q ≤ k → k < q + n → g.byte k = f.byte k) : g.read q n = f.read q n := by
  unfold read
  simp only [hsize]
  split
  · congr 1
    apply map_congr_left
    intro k hk
    exact hbyte _ (Nat.le_add_right ..) (Nat.add_lt_add_left (mem_range.1 hk) q)
  · rfl

theorem byte_write_of_disjoint {k : Nat} (h : k < p ∨ p + bs.length ≤ k) :
    (f.write p bs).byte k = f.byte k := by
  simp only [write]
  split
  · rfl
  · rw [getElem?_eq_none (by omega), Option.getD_none]

theorem read_write_of_disjoint (h : q + n ≤ p ∨ p + bs.length ≤ q) (hn : q + n ≤ f.size) :
    (f.write p bs).read q n = f.read q n := by
  have hsize : q + n ≤ (f.write p bs).size := le_trans hn (le_max_left ..)
  apply read_congr (iff_of_true hsize hn)
  intro k hq hk
  exact byte_write_of_disjoint (by omega)

theorem read_fill_of_disjoint {m : Nat} (h : q + n ≤ p ∨ p + m ≤ q) (hn : q + n ≤ f.size) :
    (f.fill p m).read q n = f.read q n := by
  have hsize : q + n ≤ (f.fill p m).size := le_trans hn (le_max_left ..)
  apply read_congr (iff_of_true hsize hn)
  intro k hq hk
  exact if_neg (by omega)

theorem write_append (f : ByteFile) (p : Nat) (as bs : List UInt8) :
    (f.write p as).write (p + as.length) bs = f.write p (as ++ bs) := by
  simp only [write, ByteFile.mk.injEq, length_append]
  refine ⟨by omega, funext fun k => ?_⟩
  by_cases hp : k < p
  · rw [if_pos hp, if_pos hp, if_pos (by omega)]
  rw [if_neg hp, if_neg hp]
  by_cases ha : k < p + as.length
  · rw [if_pos ha, getElem?_append_left (by omega)]
  · rw [if_neg ha, getElem?_append_right (by omega),
      getElem?_eq_none (l := as) (by omega), Option.getD_none, Nat.sub_sub]

theorem size_write_of_le (h : p + bs.length ≤ f.size) : (f.write p bs).size = f.size :=
  max_eq_left h

theorem le_size_of_read (h : f.read p n = some bs) : p + n ≤ f.size := by
  unfold read at h
  split at h
  · assumption
  · cases h

theorem exists_read (h : p + n ≤ f.size) : ∃ bs, f.read p n = some bs ∧ bs.length = n := by
  refine ⟨_, if_pos h, ?_⟩
  rw [length_map, length_range]

theorem read_one (h : p < f.size) : f.read p 1 = some [f.byte p] := by
  unfold read
  rw [if_pos (Nat.succ_le_of_lt h)]
  rfl

theorem read_add {m : Nat} {as : List UInt8} (ha : f.read p m = some as)
    (hb : f.read (p + m) n = some bs) : f.read p (m + n) = some (as ++ bs) := by
  unfold read at ha hb ⊢
  split at ha
  case isFalse => cases ha
  split at hb
  case isFalse => cases hb
  case isTrue hn =>
    cases ha
    cases hb
    rw [if_pos (by omega), range_add, map_append, map_map]
    congr 3
    funext k
    rw [add_assoc]
    rfl

theorem read_split {as : List UInt8} (h : f.read p (as.length + bs.length) = some (as ++ bs)) :
    f.read p as.length = some as ∧ f.read (p + as.length) bs.length = some bs := by
  have hsize := le_size_of_read h
  have h1 : p + as.length ≤ f.size := by omega
  have h2 : p + as.length + bs.length ≤ f.size := by omega
  obtain ⟨as', ha, hla⟩ := exists_read h1
  obtain ⟨bs', hb, -⟩ := exists_read h2
  have heq := (read_add ha hb).symm.trans h
  obtain ⟨rfl, rfl⟩ := append_inj (Option.some.inj heq) hla
  exact ⟨ha, hb⟩

theorem read_write_succ (h : p + bs.length < f.size) :
    (f.write p bs).read p (bs.length + 1) = some (bs ++ [f.byte (p + bs.length)]) := by
  have hsize := size_write_of_le (le_of_lt h)
  have hlast : (f.write p bs).read (p + bs.length) 1 = some [f.byte (p + bs.length)] := by
    rw [read_one (hsize.symm ▸ h), byte_write_of_disjoint (.inr (le_refl _))]
  exact read_add (read_write f p bs) hlast

/-- The files differ only from `lo` to before `hi`. -/
structure Frame (f f' : ByteFile) (lo hi : Nat) : Prop where
  size : f'.size = f.size
  byte : ∀ k, k < lo ∨ hi ≤ k → f'.byte k = f.byte k

namespace Frame

variable {f' f'' : ByteFile} {lo hi : Nat}

theorem refl (f : ByteFile) (lo hi : Nat) : Frame f f lo hi := ⟨rfl, fun _ _ => rfl⟩

theorem trans (h : Frame f f' lo hi) (h' : Frame f' f'' lo hi) : Frame f f'' lo hi :=
  ⟨h'.size.trans h.size, fun k hk => (h'.byte k hk).trans (h.byte k hk)⟩

theorem write (h : p + bs.length ≤ f.size) (hlo : lo ≤ p) (hhi : p + bs.length ≤ hi) :
    Frame f (f.write p bs) lo hi where
  size := size_write_of_le h
  byte k hk := byte_write_of_disjoint (by omega)

theorem read (h : Frame f f' lo hi) (hd : q + n ≤ lo ∨ hi ≤ q) : f'.read q n = f.read q n := by
  apply read_congr (by rw [h.size])
  intro k hq hk
  exact h.byte k (by omega)

end Frame

end ByteFile

/-- A number in `k` bytes, the lowest first. -/
def leBytes : Nat → Nat → List UInt8
  | 0, _ => []
  | k + 1, n => UInt8.ofNat n :: leBytes k (n / 256)

def leNat : List UInt8 → Nat
  | [] => 0
  | b :: bs => b.toNat + 256 * leNat bs

theorem length_leBytes (k : Nat) : ∀ n, (leBytes k n).length = k := by
  induction k with
  | zero => exact fun _ => rfl
  | succ k ih =>
    intro n
    rw [leBytes, length_cons, ih]

theorem leNat_leBytes (k : Nat) : ∀ n, n < 256 ^ k → leNat (leBytes k n) = n := by
  induction k with
  | zero =>
    intro n hn
    exact (Nat.lt_one_iff.1 hn).symm
  | succ k ih =>
    intro n hn
    have hdiv : n / 256 < 256 ^ k := Nat.div_lt_of_lt_mul (by omega)
    rw [leBytes, leNat, ih _ hdiv, UInt8.toNat_ofNat']
    omega

structure Image (α : Type) where
  size : Nat
  put : α → List UInt8
  get : List UInt8 → α
  length_put : ∀ a, (put a).length = size
  get_put : ∀ a, get (put a) = a

namespace Image

variable {α β : Type}

def read (im : Image α) (f : ByteFile) (p : Nat) : Option α := (f.read p im.size).map im.get

def write (im : Image α) (f : ByteFile) (p : Nat) (a : α) : ByteFile := f.write p (im.put a)

theorem read_write (im : Image α) (f : ByteFile) (p : Nat) (a : α) :
    im.read (im.write f p a) p = some a := by
  have h := f.read_write p (im.put a)
  rw [im.length_put] at h
  simp [read, write, h, Option.map_some, im.get_put]

theorem frame_write (im : Image α) {f : ByteFile} {p lo hi : Nat} (h : p + im.size ≤ f.size)
    (hlo : lo ≤ p) (hhi : p + im.size ≤ hi) (a : α) : f.Frame (im.write f p a) lo hi :=
  .write ((im.length_put a).symm ▸ h) hlo ((im.length_put a).symm ▸ hhi)

theorem read_frame (im : Image α) {f f' : ByteFile} {p lo hi : Nat} (h : f.Frame f' lo hi)
    (hd : p + im.size ≤ lo ∨ hi ≤ p) : im.read f' p = im.read f p := by
  unfold read
  rw [h.read hd]

/-- A number type in its `k` bytes. -/
def number (k : Nat) (toNat : α → Nat) (ofNat : Nat → α) (hlt : ∀ a, toNat a < 256 ^ k)
    (hof : ∀ a, ofNat (toNat a) = a) : Image α where
  size := k
  put a := leBytes k (toNat a)
  get bs := ofNat (leNat bs)
  length_put a := length_leBytes k (toNat a)
  get_put a := by rw [leNat_leBytes k _ (hlt a), hof]

def uint8 : Image UInt8 := number 1 UInt8.toNat UInt8.ofNat UInt8.toNat_lt fun _ => UInt8.ofNat_toNat
def uint16 : Image UInt16 :=
  number 2 UInt16.toNat UInt16.ofNat UInt16.toNat_lt fun _ => UInt16.ofNat_toNat
def uint32 : Image UInt32 :=
  number 4 UInt32.toNat UInt32.ofNat UInt32.toNat_lt fun _ => UInt32.ofNat_toNat
def uint64 : Image UInt64 :=
  number 8 UInt64.toNat UInt64.ofNat UInt64.toNat_lt fun _ => UInt64.ofNat_toNat

/-- One record after the other. -/
def prod (im : Image α) (im' : Image β) : Image (α × β) where
  size := im.size + im'.size
  put a := im.put a.1 ++ im'.put a.2
  get bs := (im.get (bs.take im.size), im'.get (bs.drop im.size))
  length_put a := by rw [length_append, im.length_put, im'.length_put]
  get_put a := by
    rw [take_left' (im.length_put _), drop_left' (im.length_put _), im.get_put, im'.get_put]

/-- A record by way of another with the same data. -/
def of (im : Image β) (f : α → β) (g : β → α) (h : ∀ a, g (f a) = a) : Image α where
  size := im.size
  put a := im.put (f a)
  get bs := g (im.get bs)
  length_put a := im.length_put (f a)
  get_put a := by rw [im.get_put, h]

/-- The same bytes the other way round. -/
def rev (im : Image α) : Image α where
  size := im.size
  put a := (im.put a).reverse
  get bs := im.get bs.reverse
  length_put a := by rw [length_reverse, im.length_put]
  get_put a := by rw [reverse_reverse, im.get_put]

def int32 : Image Int32 := uint32.of Int32.toUInt32 UInt32.toInt32 fun _ => rfl

/-- An array of `n` bytes. -/
def bytes (n : Nat) : Image (Vector UInt8 n) where
  size := n
  put a := a.toList
  get bs := Vector.ofFn fun i => bs.getD i 0
  length_put a := a.length_toList
  get_put a := by
    apply Vector.ext
    intro i hi
    simp

end Image

end DesPwd
