import DesPwd.Core.ByteFile
import DesPwd.Core.CharBuf

/-!
# The custom fields of a log record

A log record can carry six custom fields, four numbers and two strings; the bits
of `bCustFlag` say which are set. A client packs them behind one another with
`MtReport_Save_LogCust` (language/c_cpp/mt_log.c), the log server unpacks them
into a ring slot in `WriteAppLogToShm`, and `SaveLogCustData` packs those of a
slot again for the log file (lib/mtagent_api_open/supper_log.cpp). Numbers are in
network order in a packet and in that of the machine in a file.

* `writeCust_saveLogCust`: what the server reads from what a client packed.
* `cust_survives_iff`: the fields arrive exactly if at most one of the strings is
  set, or the memory behind the custom data happens to hold the second one.
* `readCustData_packCust`: from a file they are always read back.

Source files without a directory are in `lib/mtagent_api_open/`.
-/
namespace DesPwd.L1.LogCust

open Bytes List Option

/-! ## Packing -/

/-- The custom fields, as the client, a ring slot and a search result hold them. -/
structure Cust where
  bCustFlag : UInt8
  dwCust_1 : UInt32
  dwCust_2 : UInt32
  iCust_3 : Int32
  iCust_4 : Int32
  szCust_5 : CharBuf 15
  szCust_6 : CharBuf 31
  deriving DecidableEq

/-- The bits `MTLOG_CUST_FLAG_C1_SET` to `MTLOG_CUST_FLAG_C6_SET`. -/
inductive Field where
  | c1 | c2 | c3 | c4 | c5 | c6
  deriving DecidableEq

def Field.bit : Field → UInt8
  | .c1 => 1
  | .c2 => 2
  | .c3 => 4
  | .c4 => 8
  | .c5 => 16
  | .c6 => 32

/-- `IS_SET_BIT` -/
def isSet (bCustFlag : UInt8) (f : Field) : Bool := bCustFlag &&& f.bit != 0

def piece (on : Bool) (b : Bytes) : Bytes := if on then b else []

/-- The fields that are set, behind the flag. A string is copied with its size
less one and is followed by a zero; `num` is the order of the numbers.
mirrors language/c_cpp/mt_log.c:441-478 and
supper_log.cpp:5283-5320 -/
def packCust (num : Image UInt32) (c : Cust) : Bytes :=
  c.bCustFlag :: (piece (isSet c.bCustFlag .c1) (num.put c.dwCust_1) ++
    (piece (isSet c.bCustFlag .c2) (num.put c.dwCust_2) ++
    (piece (isSet c.bCustFlag .c3) (num.put c.iCust_3.toUInt32) ++
    (piece (isSet c.bCustFlag .c4) (num.put c.iCust_4.toUInt32) ++
    (piece (isSet c.bCustFlag .c5) (c.szCust_5.str ++ [0]) ++
    piece (isSet c.bCustFlag .c6) (c.szCust_6.str ++ [0]))))))

/-- `htonl` -/
def networkOrder : Image UInt32 := Image.uint32.rev

/-- The bytes that a client saves in its pool for a record. -/
def saveLogCust (c : Cust) : Bytes := packCust networkOrder c

/-- The bytes for a log file, none if no field is set;
mirrors supper_log.cpp:5283-5324 -/
def saveLogCustData (num : Image UInt32) (c : Cust) : Bytes :=
  if (packCust num c).length ≤ 1 then [] else packCust num c

theorem length_piece_le (on : Bool) (b : Bytes) : (piece on b).length ≤ b.length := by
  cases on with
  | false => exact Nat.zero_le _
  | true => exact le_refl _

section

variable (num : Image UInt32)

/-- The flag, four numbers and the two arrays at most. -/
theorem length_packCust_le (c : Cust) :
    (packCust num c).length ≤ 49 + 4 * num.size := by
  have hn : ∀ f x, (piece (isSet c.bCustFlag f) (num.put x)).length ≤ num.size := fun f x =>
    le_trans (length_piece_le _ _) (le_of_eq (num.length_put x))
  have hs : ∀ f {n} (b : CharBuf n),
      (piece (isSet c.bCustFlag f) (b.str ++ [0])).length ≤ n + 1 := fun f n b =>
    le_trans (length_piece_le _ _) (by
      rw [length_append]
      exact Nat.succ_le_succ b.length_str)
  have h1 := hn .c1 c.dwCust_1
  have h2 := hn .c2 c.dwCust_2
  have h3 := hn .c3 c.iCust_3.toUInt32
  have h4 := hn .c4 c.iCust_4.toUInt32
  have h5 := hs .c5 c.szCust_5
  have h6 := hs .c6 c.szCust_6
  simp only [packCust, length_cons, length_append]
  omega

theorem length_saveLogCust (c : Cust) : (saveLogCust c).length ≤ 65 :=
  length_packCust_le networkOrder c

theorem length_saveLogCustData_le (c : Cust) :
    (saveLogCustData num c).length ≤ 49 + 4 * num.size := by
  unfold saveLogCustData
  split
  · exact Nat.zero_le _
  · exact length_packCust_le num c

theorem saveLogCustData_eq {num : Image UInt32} {c : Cust} (h : saveLogCustData num c ≠ []) :
    saveLogCustData num c = packCust num c := by
  unfold saveLogCustData
  split
  case isTrue hle => exact absurd (if_pos hle) h
  case isFalse => rfl

theorem bCustFlag_ne_zero {num : Image UInt32} {c : Cust} (h : saveLogCustData num c ≠ []) :
    c.bCustFlag ≠ 0 := by
  intro h0
  have hset : ∀ f, isSet c.bCustFlag f = false := by
    rw [h0]
    intro f
    cases f <;> rfl
  apply h
  simp [saveLogCustData, packCust, hset, piece]

/-! ## Unpacking in the log server -/

/-- A number at the front of a memory, with the memory behind it; 0 if it is not
set. `none` is a read outside the memory. -/
def readNum (num : Image UInt32) (on : Bool) (p : Bytes) : Option (UInt32 × Bytes) :=
  if on then
    if num.size ≤ p.length then some (num.get (p.take num.size), p.drop num.size) else none
  else some (0, p)

/-- The string of `szCust_5`: behind it the pointer moves by the size of the
array and one, whatever the length of the string.
mirrors supper_log.cpp:3851-3856 -/
def readCust5 (on : Bool) (old : CharBuf 15) (p : Bytes) : Option (CharBuf 15 × Bytes) :=
  if on then do
    let s ← cStr 15 p
    pure (old.strncpy s, p.drop 17)
  else some (old.clear, p)

/-- mirrors supper_log.cpp:3858-3863 -/
def readCust6 (on : Bool) (old : CharBuf 31) (p : Bytes) : Option (CharBuf 31) :=
  if on then do
    let s ← cStr 31 p
    pure (old.strncpy s)
  else some old.clear

/-- The custom fields of a ring slot that held `old`, from the memory at `sLog`;
mirrors supper_log.cpp:3819-3864 -/
def writeCust (old : Cust) : Bytes → Option Cust
  | [] => none
  | bCustFlag :: p => do
    let (c1, p) ← readNum networkOrder (isSet bCustFlag .c1) p
    let (c2, p) ← readNum networkOrder (isSet bCustFlag .c2) p
    let (c3, p) ← readNum networkOrder (isSet bCustFlag .c3) p
    let (c4, p) ← readNum networkOrder (isSet bCustFlag .c4) p
    let (s5, p) ← readCust5 (isSet bCustFlag .c5) old.szCust_5 p
    let s6 ← readCust6 (isSet bCustFlag .c6) old.szCust_6 p
    pure ⟨bCustFlag, c1, c2, c3.toInt32, c4.toInt32, s5, s6⟩

/-! ## The way of the fields -/

/-- The flag and every field that is set are the same. -/
structure Survives (c d : Cust) : Prop where
  flag : d.bCustFlag = c.bCustFlag
  cust_1 : isSet c.bCustFlag .c1 → d.dwCust_1 = c.dwCust_1
  cust_2 : isSet c.bCustFlag .c2 → d.dwCust_2 = c.dwCust_2
  cust_3 : isSet c.bCustFlag .c3 → d.iCust_3 = c.iCust_3
  cust_4 : isSet c.bCustFlag .c4 → d.iCust_4 = c.iCust_4
  cust_5 : isSet c.bCustFlag .c5 → d.szCust_5.str = c.szCust_5.str
  cust_6 : isSet c.bCustFlag .c6 → d.szCust_6.str = c.szCust_6.str

theorem readNum_piece (on : Bool) (x : UInt32) (rest : Bytes) :
    readNum num on (piece on (num.put x) ++ rest) = some (if on then x else 0, rest) := by
  cases on with
  | false => rfl
  | true =>
    have hlen := num.length_put x
    have hfit : num.size ≤ (num.put x ++ rest).length := by simp [hlen]
    simp only [readNum, piece, if_true, if_pos hfit, take_left' hlen, drop_left' hlen, num.get_put]

/-- The memory from which `szCust_6` is read. -/
def cust6From (c : Cust) (rest : Bytes) : Bytes :=
  let p := piece (isSet c.bCustFlag .c6) (c.szCust_6.str ++ [0]) ++ rest
  if isSet c.bCustFlag .c5 then p.drop (16 - c.szCust_5.str.length) else p

theorem readCust5_piece (on : Bool) (old b : CharBuf 15) (rest : Bytes) :
    readCust5 on old (piece on (b.str ++ [0]) ++ rest) =
      some (if on then (old.strncpy b.str, rest.drop (16 - b.str.length)) else (old.clear, rest)) := by
  cases on with
  | false => rfl
  | true =>
    have hlen := b.length_str
    have hread : cStr 15 (b.str ++ 0 :: rest) = some b.str := cStr_append b.zero_not_mem_str hlen
    have hdrop : (b.str ++ 0 :: rest).drop 17 = rest.drop (16 - b.str.length) := by
      have hk : 17 - b.str.length = (16 - b.str.length) + 1 := by omega
      rw [drop_append, drop_of_length_le (by omega), nil_append, hk, drop_succ_cons]
    simp only [readCust5, piece, if_true, append_assoc, singleton_append, hread, hdrop]
    rfl

theorem toInt32_ite (on : Bool) (x : Int32) :
    (if on then x.toUInt32 else 0).toInt32 = if on then x else 0 := by
  cases on <;> rfl

/-- The fields of `c` in a slot that held `old`, with `s6` as the second string. -/
def received (old c : Cust) (s6 : CharBuf 31) : Cust where
  bCustFlag := c.bCustFlag
  dwCust_1 := if isSet c.bCustFlag .c1 then c.dwCust_1 else 0
  dwCust_2 := if isSet c.bCustFlag .c2 then c.dwCust_2 else 0
  iCust_3 := if isSet c.bCustFlag .c3 then c.iCust_3 else 0
  iCust_4 := if isSet c.bCustFlag .c4 then c.iCust_4 else 0
  szCust_5 :=
    if isSet c.bCustFlag .c5 then old.szCust_5.strncpy c.szCust_5.str else old.szCust_5.clear
  szCust_6 := s6

/-- What the server reads from what a client packed: the flag, the numbers and
`szCust_5` are right, and `szCust_6` is the string at `cust6From`. -/
theorem writeCust_saveLogCust (old c : Cust) (rest : Bytes) :
    writeCust old (saveLogCust c ++ rest) =
      (readCust6 (isSet c.bCustFlag .c6) old.szCust_6 (cust6From c rest)).map (received old c) := by
  simp [saveLogCust, packCust, cons_append, append_assoc, writeCust, readNum_piece,
    readCust5_piece, bind_eq_bind, bind_some, toInt32_ite, cust6From]
  cases h5 : isSet c.bCustFlag .c5 with
  | false =>
    simp only [map_eq_bind, Function.comp_def, received, h5]
    rfl
  | true =>
    simp only [map_eq_bind, Function.comp_def, received, h5]
    rfl

/-- With both strings set, the second is read behind its first bytes or behind
its end. -/
theorem cStr_cust6_iff (a b rest : Bytes) (ha : a.length ≤ 15) (hb : b.length ≤ 31) (hz : 0 ∉ b) :
    cStr 31 ((b ++ 0 :: rest).drop (16 - a.length)) = some b ↔
      a.length + b.length < 16 ∧ cStr 31 (rest.drop (15 - a.length - b.length)) = some b := by
  by_cases hk : 16 - a.length ≤ b.length
  · -- the read starts inside the string: its rest is too short to be the string
    have hread : cStr 31 ((b ++ 0 :: rest).drop (16 - a.length)) = some (b.drop (16 - a.length)) := by
      rw [drop_append_of_le_length hk]
      exact cStr_append (fun h => hz (mem_of_mem_drop h)) (by simp; omega)
    rw [hread]
    constructor
    · intro h
      have hlen := congrArg List.length (Option.some.inj h)
      rw [length_drop] at hlen
      omega
    · omega
  · have hk1 : 16 - a.length - b.length = (15 - a.length - b.length) + 1 := by omega
    have hdrop : (b ++ 0 :: rest).drop (16 - a.length) = rest.drop (15 - a.length - b.length) := by
      rw [drop_append, drop_of_length_le (by omega), nil_append, hk1, drop_succ_cons]
    rw [hdrop]
    constructor
    · intro h
      exact ⟨by omega, h⟩
    · exact fun h => h.2

/-- What `szCust_6` is read as. -/
theorem readCust6_iff (old : CharBuf 31) (c : Cust) (rest : Bytes) :
    (∃ s6, readCust6 (isSet c.bCustFlag .c6) old (cust6From c rest) = some s6 ∧
        (isSet c.bCustFlag .c6 → s6.str = c.szCust_6.str)) ↔
      (isSet c.bCustFlag .c6 → cStr 31 (cust6From c rest) = some c.szCust_6.str) := by
  cases isSet c.bCustFlag .c6 with
  | false => simp [readCust6]
  | true =>
    simp only [readCust6, true_implies]
    constructor
    · rintro ⟨s6, hread, hs⟩
      obtain ⟨s, hs', heq⟩ := bind_eq_some_iff.1 hread
      cases heq
      obtain ⟨hz, hlen⟩ := cStr_some hs'
      rw [CharBuf.str_strncpy _ hz hlen] at hs
      rw [hs', hs]
    · intro hread
      rw [hread]
      exact ⟨_, rfl, CharBuf.str_strncpy _ c.szCust_6.zero_not_mem_str c.szCust_6.length_str⟩

/-- The custom fields arrive exactly if not both strings are set, or if they
are short and the memory that far behind the custom data holds the second one. -/
theorem cust_survives_iff (c old : Cust) (rest : Bytes) :
    (∃ d, writeCust old (saveLogCust c ++ rest) = some d ∧ Survives c d) ↔
      (isSet c.bCustFlag .c5 → isSet c.bCustFlag .c6 →
        c.szCust_5.str.length + c.szCust_6.str.length < 16 ∧
        cStr 31 (rest.drop (15 - c.szCust_5.str.length - c.szCust_6.str.length)) =
          some c.szCust_6.str) := by
  have hs5 := CharBuf.str_strncpy old.szCust_5 c.szCust_5.zero_not_mem_str c.szCust_5.length_str
  have hread : (∃ d, writeCust old (saveLogCust c ++ rest) = some d ∧ Survives c d) ↔
      (isSet c.bCustFlag .c6 → cStr 31 (cust6From c rest) = some c.szCust_6.str) := by
    rw [writeCust_saveLogCust, ← readCust6_iff old.szCust_6]
    constructor
    · rintro ⟨d, hd, hsur⟩
      obtain ⟨s6, h6, rfl⟩ := map_eq_some_iff.1 hd
      exact ⟨s6, h6, hsur.cust_6⟩
    · rintro ⟨s6, h6, hs6⟩
      refine ⟨received old c s6, by rw [h6]; rfl, rfl, ?_, ?_, ?_, ?_, ?_, hs6⟩
      all_goals
        intro hset
        simp [received, hset, hs5]
  rw [hread]
  cases h5 : isSet c.bCustFlag .c5 with
  | false =>
    have hfrom : isSet c.bCustFlag .c6 = true →
        cStr 31 (cust6From c rest) = some c.szCust_6.str := by
      intro h6
      simp [cust6From, h5, h6, piece,
        append_assoc]
      exact cStr_append c.szCust_6.zero_not_mem_str c.szCust_6.length_str
    exact ⟨fun _ h => absurd h Bool.false_ne_true, fun _ => hfrom⟩
  | true =>
    have hfrom : isSet c.bCustFlag .c6 = true → cust6From c rest =
          (c.szCust_6.str ++ 0 :: rest).drop (16 - c.szCust_5.str.length) := by
      intro h6
      simp [cust6From, h5, h6, piece, append_assoc]
    simp only [true_implies]
    refine forall_congr' fun h6 => ?_
    rw [hfrom h6]
    exact cStr_cust6_iff _ _ rest c.szCust_5.length_str c.szCust_6.length_str
      c.szCust_6.zero_not_mem_str

/-! ## Unpacking from a log file -/

/-- A number at the front of a memory if it is set, `old` if not. -/
def takeNum (num : Image UInt32) (on : Bool) (old : UInt32) (p : Bytes) : UInt32 × Bytes :=
  if on then (num.get (p.take num.size), p.drop num.size) else (old, p)

/-- Here the pointer moves by the length of the string. -/
def takeStr {n : Nat} (on : Bool) (old : CharBuf n) (p : Bytes) : Option (CharBuf n × Bytes) :=
  if on then do
    let s ← cStr n p
    pure (old.strncpy s, p.drop (s.length + 1))
  else some (old, p)

/-- The custom fields of a search result that held `old`: fields that are not set
keep their value.
mirrors supper_log.cpp:794-818 -/
def readCustData (num : Image UInt32) (old : Cust) : Bytes → Option Cust
  | [] => none
  | bCustFlag :: p => do
    let (c1, p) := takeNum num (isSet bCustFlag .c1) old.dwCust_1 p
    let (c2, p) := takeNum num (isSet bCustFlag .c2) old.dwCust_2 p
    let (c3, p) := takeNum num (isSet bCustFlag .c3) old.iCust_3.toUInt32 p
    let (c4, p) := takeNum num (isSet bCustFlag .c4) old.iCust_4.toUInt32 p
    let (s5, p) ← takeStr (isSet bCustFlag .c5) old.szCust_5 p
    let (s6, _) ← takeStr (isSet bCustFlag .c6) old.szCust_6 p
    pure ⟨bCustFlag, c1, c2, c3.toInt32, c4.toInt32, s5, s6⟩

theorem takeNum_piece (on : Bool) (old x : UInt32) (rest : Bytes) :
    takeNum num on old (piece on (num.put x) ++ rest) = (if on then x else old, rest) := by
  cases on with
  | false => rfl
  | true =>
    have hlen := num.length_put x
    simp [takeNum, piece, take_left' hlen, drop_left' hlen, num.get_put]

theorem takeStr_piece {n : Nat} (on : Bool) (old b : CharBuf n) (rest : Bytes) :
    takeStr on old (piece on (b.str ++ [0]) ++ rest) =
      some (if on then old.strncpy b.str else old, rest) := by
  cases on with
  | false => rfl
  | true =>
    have hread : cStr n (b.str ++ 0 :: rest) = some b.str :=
      cStr_append b.zero_not_mem_str b.length_str
    have hdrop : (b.str ++ 0 :: rest).drop (b.str.length + 1) = rest := by
      simp
    simp only [takeStr, piece, if_true, append_assoc, singleton_append, hread,
      bind_eq_bind, bind_some, hdrop]
    rfl

/-- What was packed for a file is read back, whatever the search result held. -/
theorem readCustData_packCust (c old : Cust) (rest : Bytes) :
    ∃ d, readCustData num old (packCust num c ++ rest) = some d ∧ Survives c d := by
  simp only [packCust, cons_append, append_assoc, readCustData, takeNum_piece,
    takeStr_piece, bind_eq_bind, bind_some]
  refine ⟨_, rfl, rfl, ?_, ?_, ?_, ?_, ?_, ?_⟩
  all_goals
    intro hset
    simp only [hset, if_true]
  case refine_3 => rfl
  case refine_4 => rfl
  case refine_5 =>
    exact CharBuf.str_strncpy _ c.szCust_5.zero_not_mem_str c.szCust_5.length_str
  case refine_6 =>
    exact CharBuf.str_strncpy _ c.szCust_6.zero_not_mem_str c.szCust_6.length_str

end

/-! ## Two strings in a packet -/

/-- Both strings set, to `a` and to `b`. -/
def bothStrings : Cust :=
  ⟨48, 0, 0, 0, 0, (CharBuf.zero 15).strncpy [97], (CharBuf.zero 31).strncpy [98]⟩

/-- The text `0123456789ABCDEF` behind the custom data of `bothStrings`: the slot
gets `DEF` for its second string. -/
theorem cust_survives_not : ∃ d, writeCust ⟨0, 0, 0, 0, 0, .zero 15, .zero 31⟩
        (saveLogCust bothStrings ++
          [48, 49, 50, 51, 52, 53, 54, 55, 56, 57, 65, 66, 67, 68, 69, 70, 0]) = some d ∧
      d.bCustFlag = 48 ∧ d.szCust_5.str = [97] ∧ d.szCust_6.str = [68, 69, 70] ∧
      bothStrings.szCust_6.str = [98] :=
  ⟨_, rfl, by decide +kernel⟩

end DesPwd.L1.LogCust
