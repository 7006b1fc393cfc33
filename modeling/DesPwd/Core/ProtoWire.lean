import DesPwd.Core.Bytes

/-!
# Protobuf messages of numbers and strings

A field on the wire is its number and the kind of its value in one varint, then a varint,
or the length of a string and the string. Varints are written in the shortest form. A
message is what it has for each field number; of a field that comes twice the last one
counts. Fixed-width values do not occur.

* `readVarint_varint`, `readFields_bytes`: what was written is read again.
* `Message.parse_bytes`: so is a message.
-/
namespace DesPwd.ProtoWire

open Bytes List Function

inductive Value where
  | num (n : UInt32)
  | str (s : Bytes)

/-- `n` in at most `fuel + 1` bytes. -/
def varintFrom : Nat → Nat → Bytes
  | 0, n => [UInt8.ofNat n]
  | fuel + 1, n =>
    if n < 128 then [UInt8.ofNat n]
    else UInt8.ofNat (n % 128 + 128) :: varintFrom fuel (n / 128)

def varint (n : Nat) : Bytes := varintFrom n n

/-- The number at the front, and the bytes behind it. -/
def readVarint : Bytes → Option (Nat × Bytes)
  | [] => none
  | b :: bs =>
    if b.toNat < 128 then some (b.toNat, bs)
    else (readVarint bs).map fun r => (b.toNat - 128 + 128 * r.1, r.2)

theorem readVarint_varintFrom (rest : Bytes) :
    ∀ fuel n, n ≤ fuel → readVarint (varintFrom fuel n ++ rest) = some (n, rest)
  | 0, n, h => by
    obtain rfl : n = 0 := by omega
    rfl
  | fuel + 1, n, h => by
    rw [varintFrom]
    split
    case isTrue hlt =>
      have hn : (UInt8.ofNat n).toNat = n := by rw [UInt8.toNat_ofNat']; omega
      rw [singleton_append, readVarint, hn, if_pos hlt]
    case isFalse hge =>
      have hb : (UInt8.ofNat (n % 128 + 128)).toNat = n % 128 + 128 := by
        rw [UInt8.toNat_ofNat']; omega
      rw [cons_append, readVarint, hb, if_neg (by omega),
        readVarint_varintFrom rest fuel (n / 128) (by omega), Option.map_some]
      congr 2
      omega

theorem readVarint_varint (n : Nat) (rest : Bytes) :
    readVarint (varint n ++ rest) = some (n, rest) :=
  readVarint_varintFrom rest n n (Nat.le_refl n)

theorem varint_ne_nil (n : Nat) : varint n ≠ [] := by
  intro h
  have := readVarint_varint n []
  rw [h] at this
  cases this

/-! ## Fields -/

/-- The kind of a number is 0, of a string 2. -/
def fieldBytes : Nat × Value → Bytes
  | (k, .num n) => varint (8 * k) ++ varint n.toNat
  | (k, .str s) => varint (8 * k + 2) ++ (varint s.length ++ s)

def readField (b : Bytes) : Option ((Nat × Value) × Bytes) := do
  let (tag, b) ← readVarint b
  let (n, b) ← readVarint b
  match tag % 8 with
  | 0 => some ((tag / 8, .num (UInt32.ofNat n)), b)
  | 2 => if b.length < n then none else some ((tag / 8, .str (b.take n)), b.drop n)
  | _ => none

def readFields : Nat → Bytes → Option (List (Nat × Value))
  | _, [] => some []
  | 0, _ => none
  | fuel + 1, b => do
    let (x, b) ← readField b
    (readFields fuel b).map (x :: ·)

theorem readField_bytes (x : Nat × Value) (rest : Bytes) :
    readField (fieldBytes x ++ rest) = some (x, rest) := by
  obtain ⟨k, n | s⟩ := x
  · have hkind : 8 * k % 8 = 0 := by omega
    have hnum : 8 * k / 8 = k := by omega
    simp [readField, fieldBytes, readVarint_varint, hkind, hnum]
  · have hkind : (8 * k + 2) % 8 = 2 := by omega
    have hnum : (8 * k + 2) / 8 = k := by omega
    simp [readField, fieldBytes, readVarint_varint, hkind, hnum]

theorem fieldBytes_ne_nil (x : Nat × Value) : fieldBytes x ≠ [] := by
  obtain ⟨k, n | s⟩ := x <;> simp [fieldBytes, varint_ne_nil]

theorem readFields_bytes : ∀ fuel fs, (fs.flatMap fieldBytes).length ≤ fuel →
    readFields fuel (fs.flatMap fieldBytes) = some fs
  | fuel, [], _ => by cases fuel <;> rfl
  | fuel, x :: fs, h => by
    have hpos := length_pos_iff.mpr (fieldBytes_ne_nil x)
    rw [flatMap_cons, length_append] at h
    obtain _ | fuel := fuel
    · omega
    have ih := readFields_bytes fuel fs (by omega)
    have hne : fieldBytes x ++ fs.flatMap fieldBytes ≠ [] :=
      append_ne_nil_of_left_ne_nil (fieldBytes_ne_nil x) _
    rw [flatMap_cons, readFields, readField_bytes]
    · simp [ih]
    · exact hne

/-! ## Messages -/

abbrev Message := Nat → Option Value

namespace Message

/-- The fields in the order `ks` of their numbers. -/
def fields (ks : List Nat) (m : Message) : List (Nat × Value) :=
  ks.filterMap fun k => (m k).map (k, ·)

def bytes (ks : List Nat) (m : Message) : Bytes := (m.fields ks).flatMap fieldBytes

def put (m : Message) (x : Nat × Value) : Message := update m x.1 (some x.2)

def parse (b : Bytes) : Option Message := (readFields b.length b).map (·.foldl put fun _ => none)

theorem foldl_put_fields (m : Message) (ks : List Nat) (m0 : Message) (k : Nat) :
    (m.fields ks).foldl put m0 k = if k ∈ ks ∧ (m k).isSome then m k else m0 k := by
  induction ks generalizing m0 with
  | nil => simp [fields]
  | cons j ks ih =>
    cases hj : m j with
    | none =>
      have hfields : m.fields (j :: ks) = m.fields ks := by simp [fields, hj]
      rw [hfields, ih]
      by_cases hk : k = j
      · simp [hk, hj]
      · simp [hk]
    | some v =>
      have hfields : m.fields (j :: ks) = (j, v) :: m.fields ks := by simp [fields, hj]
      rw [hfields, foldl_cons, ih]
      by_cases hk : k = j
      · simp [put, hk, hj]
      · simp [put, hk]

theorem parse_bytes {ks : List Nat} {m m' : Message} {k : Nat} (h : parse (m.bytes ks) = some m')
    (hk : k ∈ ks) : m' k = m k := by
  rw [parse, bytes, readFields_bytes _ _ (Nat.le_refl _)] at h
  cases h
  show (m.fields ks).foldl put (fun _ => none) k = m k
  rw [foldl_put_fields]
  cases hm : m k <;> simp [hk]

theorem bytes_ne_nil {ks : List Nat} {m : Message} {k : Nat} (hk : k ∈ ks) (h : (m k).isSome) :
    m.bytes ks ≠ [] := by
  intro hnil
  have hparse : parse (m.bytes ks) = some fun _ => none := by rw [hnil]; rfl
  have := parse_bytes hparse hk
  rw [← this] at h
  cases h

end Message

end DesPwd.ProtoWire
