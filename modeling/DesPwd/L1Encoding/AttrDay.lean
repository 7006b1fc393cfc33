import Mathlib.Data.List.Nodup
import DesPwd.Core.Bytes

/-!
# The values of an attribute of a past day

At the end of a day `ChangeAttrSaveType` of slog_monitor_server puts the values of an
attribute on a machine, one for each static time of the day, into one binary value:
all of them, or, if at most half of the static times have a value, the numbers of
those that do and their values. The second form is built in the array that is being
read. The view of the web interface (cgi_fcgi/mt_slog_showview.cpp) tells the forms
apart by their first byte and their length, and knows a third, older one.

Arrays are functions of the index. The sums that the view compares with the other
columns of the row, and logs, are left out.

* `foldl_pressStep`: the compaction reads no entry that it has written.
* `readDay_spec`: the loop of the view over the entries of a value.
* `day_record_round_trip`: the view shows what was stored.
-/
namespace DesPwd.L1.AttrDay

open Bytes List UInt16
open Function (update update_self update_of_ne)
open Option (bind_eq_bind bind_some)

/-! ## Static times -/

/-- `COUNT_STATIC_TIMES_PER_DAY` -/
def countStaticTimesPerDay : Nat := 1440

/-- mirrors lib/mtagent_api_open/supper_log.h:144-149 -/
def getStaticTimeMaxIdxOfDay (iStaticTime : Nat) : Nat :=
  if iStaticTime = 0 then 1440
  else 1440 / iStaticTime + if 1440 % iStaticTime ≠ 0 then 1 else 0

/-- mirrors supper_log.h:1913-1919 -/
def isValidStaticTime (iStaticTime : Nat) : Bool :=
  !(iStaticTime != 1 && iStaticTime != 5 && iStaticTime != 10 && iStaticTime != 15 &&
    iStaticTime != 30 && iStaticTime != 60 && iStaticTime != 120 && iStaticTime != 180)

/-! ## The encoder -/

/-- `ATTR_DAY_BIN_TYPE_NONE`, `ATTR_DAY_BIN_TYPE_ARRAY_V2`, `ATTR_DAY_BIN_TYPE_PRESS_V2` -/
def binTypeNone : Nat := 0
def binTypeArrayV2 : Nat := 1
def binTypePressV2 : Nat := 2

/-- The arrays of the encoder, and how many entries they have. -/
structure Press where
  arrydwValue : Nat → UInt32
  arrywIdx : Nat → UInt16
  iCountIdx : Int

/-- One round of the compaction; mirrors slog_monitor_server/udp_sock.cpp:144-150 -/
def pressStep (s : Press) (k : Nat) : Press :=
  if s.arrydwValue k ≠ 0 then
    { arrydwValue := update s.arrydwValue s.iCountIdx.toNat (htonl (s.arrydwValue k))
      arrywIdx := update s.arrywIdx s.iCountIdx.toNat (htons (ofNat k))
      iCountIdx := s.iCountIdx + 1 }
  else s

/-- One round over the whole array; mirrors udp_sock.cpp:135-138 -/
def arrayStep (arrydwValue : Nat → UInt32) (k : Nat) : Nat → UInt32 :=
  if 0 < arrydwValue k then update arrydwValue k (htonl (arrydwValue k)) else arrydwValue

/-- The choice of the form; mirrors udp_sock.cpp:127-152 -/
def pressDay (iMaxAttrCountIdx iMaxReportIdx : Nat) (arrydwValue : Nat → UInt32)
    (arrywIdx : Nat → UInt16) : Press :=
  let iCountIdx := (range (iMaxReportIdx + 1)).countP (arrydwValue · ≠ 0)
  if iMaxAttrCountIdx < iCountIdx * 2 then
    ⟨(range iMaxAttrCountIdx).foldl arrayStep arrydwValue, arrywIdx, -1⟩
  else (range (iMaxReportIdx + 1)).foldl pressStep ⟨arrydwValue, arrywIdx, 0⟩

/-- The first `n` words of an array in memory. -/
def words16 (n : Nat) (a : Nat → UInt16) : Bytes := (range n).flatMap fun i => le16 (a i)

def words32 (n : Nat) (a : Nat → UInt32) : Bytes := (range n).flatMap fun i => le32 (a i)

/-- The binary value; `arrywIdx` is what an earlier attribute left.
mirrors udp_sock.cpp:127-173 -/
def encodeDay (iStaticTime iMaxReportIdx : Nat) (arrydwValue : Nat → UInt32)
    (arrywIdx : Nat → UInt16) : Bytes :=
  let iMaxAttrCountIdx := getStaticTimeMaxIdxOfDay iStaticTime
  let s := pressDay iMaxAttrCountIdx iMaxReportIdx arrydwValue arrywIdx
  let wStaticTime := le16 (htons (ofNat iStaticTime))
  if 0 < s.iCountIdx then
    let n := s.iCountIdx.toNat
    UInt8.ofNat binTypePressV2 :: (wStaticTime ++ (le16 (htons (ofNat n)) ++
      (words16 n s.arrywIdx ++ words32 n s.arrydwValue)))
  else UInt8.ofNat binTypeArrayV2 :: (wStaticTime ++ words32 iMaxAttrCountIdx s.arrydwValue)

/-! ## The decoder -/

/-- mirrors supper_log.h:376-395 -/
def getAttrIdxData (dwCur dwNew : UInt32) (iAttrDataType : Int) : UInt32 :=
  if dwCur = 0 then dwNew
  else match iAttrDataType with
    | 1 | 3 | 6 | 7 => dwCur + dwNew
    | 2 => if dwCur < dwNew then dwCur else dwNew
    | 5 | 4 => if dwCur > dwNew then dwCur else dwNew
    | 8 => dwNew
    | _ => dwCur + dwNew

/-- What the view knows about a value; `pattrIdx` and `pattrVal` as offsets. -/
structure Layout where
  cSaveBinType : Nat
  iMaxAttrCountIdx : Nat
  iCoundIdx : Nat
  pattrIdx : Option Nat
  pattrVal : Nat

/-- mirrors cgi_fcgi/mt_slog_showview.cpp:1220-1229 -/
def arrayLayout (pval : Bytes) (ulValLen cSaveBinType : Nat) : Option (Option Layout) :=
  if cSaveBinType = binTypeArrayV2 then do
    let iDbStaticTime ← rd16 pval 1
    let iMaxAttrCountIdx := getStaticTimeMaxIdxOfDay iDbStaticTime
    pure <|
      if isValidStaticTime iDbStaticTime ∧ ulValLen = 3 + iMaxAttrCountIdx * 4 then
        some ⟨cSaveBinType, iMaxAttrCountIdx, iMaxAttrCountIdx, none, 3⟩
      else none
  else some none

/-- mirrors mt_slog_showview.cpp:1232-1244 -/
def pressLayout (pval : Bytes) (ulValLen cSaveBinType : Nat) : Option (Option Layout) :=
  if cSaveBinType = binTypePressV2 then do
    let iDbStaticTime ← rd16 pval 1
    if isValidStaticTime iDbStaticTime then do
      let iCoundIdx ← rd16 pval 3
      pure <|
        if ulValLen = 5 + iCoundIdx * (2 + 4) then
          some ⟨cSaveBinType, getStaticTimeMaxIdxOfDay iDbStaticTime, iCoundIdx, some 5,
            5 + 2 * iCoundIdx⟩
        else none
    else pure none
  else some none

/-- The oldest form; mirrors mt_slog_showview.cpp:1247-1255 -/
def oldLayout (ulValLen : Nat) : Option Layout :=
  if ulValLen = 4 * 1440 then some ⟨binTypeNone, 1440, 1440, none, 0⟩ else none

/-- Each form is tried if those before it were not recognised. -/
def dayLayout (pval : Bytes) (ulValLen : Nat) : Option (Option Layout) := do
  let cSaveBinType ← rd8 pval 0
  match ← arrayLayout pval ulValLen cSaveBinType with
  | some lay => pure (some lay)
  | none =>
    match ← pressLayout pval ulValLen cSaveBinType with
    | some lay => pure (some lay)
    | none => pure (oldLayout ulValLen)

/-- `attr_db_idx` -/
def Layout.dbIdx (lay : Layout) (pval : Bytes) (i : Nat) : Option Nat :=
  match lay.pattrIdx with
  | some p => rd16 pval (p + 2 * i)
  | none => some i

/-- The loop over `n` entries from `i` on; a write behind `iReport` is `none`.
mirrors mt_slog_showview.cpp:1265-1286 -/
def readDay (iAttrDataType : Int) (pval : Bytes) (lay : Layout) :
    Nat → Nat → (Nat → UInt32) → Option (Nat → UInt32)
  | 0, _, iReport => some iReport
  | n + 1, i, iReport => do
    let k ← lay.dbIdx pval i
    if lay.pattrIdx.isSome ∧ lay.iMaxAttrCountIdx < k then
      readDay iAttrDataType pval lay n (i + 1) iReport
    else
      let v := UInt32.ofNat (← rd32 pval (lay.pattrVal + 4 * i))
      if k < countStaticTimesPerDay then
        let x :=
          -- the oldest form has its numbers in host order
          if lay.cSaveBinType = binTypeNone then iReport k + htonl v
          else getAttrIdxData (iReport k) v iAttrDataType
        readDay iAttrDataType pval lay n (i + 1) (update iReport k x)
      else none

/-- `iReport` after the value of one machine, which has a zero behind it in memory;
one that is not recognised changes nothing.
mirrors mt_slog_showview.cpp:1208-1286 -/
def decodeDay (iAttrDataType : Int) (value : Bytes) (iReport : Nat → UInt32) :
    Option (Nat → UInt32) := do
  let pval := value ++ [0]
  match ← dayLayout pval value.length with
  | some lay => readDay iAttrDataType pval lay lay.iCoundIdx 0 iReport
  | none => pure iReport

/-! ## The values of a day -/

/-- The values of an attribute: all below the number of static times of a day, and
`iMaxReportIdx` is the last one. -/
structure DayValues where
  iStaticTime : Nat
  valid : isValidStaticTime iStaticTime = true
  arrydwValue : Nat → UInt32
  inside : ∀ k, arrydwValue k ≠ 0 → k < getStaticTimeMaxIdxOfDay iStaticTime
  iMaxReportIdx : Nat
  reported : arrydwValue iMaxReportIdx ≠ 0
  largest : ∀ k, arrydwValue k ≠ 0 → k ≤ iMaxReportIdx

/-- The static times with a value. -/
def DayValues.slots (r : DayValues) : List Nat :=
  (range (r.iMaxReportIdx + 1)).filter (r.arrydwValue · ≠ 0)

theorem mem_static_times {t : Nat} (h : isValidStaticTime t = true) :
    t ∈ [1, 5, 10, 15, 30, 60, 120, 180] := by
  simpa [isValidStaticTime, or_assoc] using h

theorem static_time_cases {t : Nat} (h : isValidStaticTime t = true) :
    t < 65536 ∧ getStaticTimeMaxIdxOfDay t ≤ countStaticTimesPerDay :=
  (by decide : ∀ t ∈ [1, 5, 10, 15, 30, 60, 120, 180],
    t < 65536 ∧ getStaticTimeMaxIdxOfDay t ≤ countStaticTimesPerDay) t (mem_static_times h)

namespace DayValues

variable (r : DayValues)

theorem mem_slots {k : Nat} : k ∈ r.slots ↔ r.arrydwValue k ≠ 0 := by
  simp only [slots, mem_filter, mem_range, decide_eq_true_eq, and_iff_right_iff_imp]
  intro h
  have := r.largest k h
  omega

theorem length_slots_le : r.slots.length ≤ getStaticTimeMaxIdxOfDay r.iStaticTime := by
  have hlast := r.inside _ r.reported
  have hlen := length_filter_le (r.arrydwValue · ≠ 0) (range (r.iMaxReportIdx + 1))
  rw [length_range] at hlen
  exact Nat.le_trans hlen hlast

theorem lt_of_mem_slots {k : Nat} (h : k ∈ r.slots) : k < getStaticTimeMaxIdxOfDay r.iStaticTime :=
  r.inside k (r.mem_slots.mp h)

end DayValues

/-! ## What is stored -/

section Encode

variable (r : DayValues) (old : Nat → UInt16)

/-- The compaction has put the entries of `ks` in front, and has not touched what is
behind them. -/
structure Pressed (arr : Nat → UInt32) (ks : List Nat) (s : Press) : Prop where
  count : s.iCountIdx = ks.length
  idx : ∀ i (h : i < ks.length), s.arrywIdx i = htons (ofNat ks[i])
  val : ∀ i (h : i < ks.length), s.arrydwValue i = htonl (arr ks[i])
  behind : ∀ i, ks.length ≤ i → s.arrydwValue i = arr i

/-- One round. At most `k` entries have been written, so that of `k` is still there. -/
theorem Pressed.step {arr : Nat → UInt32} {ks : List Nat} {s : Press} {k : Nat}
    (h : Pressed arr ks s) (hk : ks.length ≤ k) :
    Pressed arr (ks ++ if arr k ≠ 0 then [k] else []) (pressStep s k) := by
  have hread := h.behind k hk
  unfold pressStep
  rw [hread]
  by_cases h0 : arr k ≠ 0
  · rw [if_pos h0, if_pos h0]
    have hn : s.iCountIdx.toNat = ks.length := by rw [h.count, Int.toNat_natCast]
    rw [hn]
    constructor
    · rw [h.count, length_append]
      rfl
    · intro i hi
      rw [length_append, length_singleton] at hi
      by_cases hlast : i = ks.length
      · subst hlast
        simp
      · dsimp only
        rw [update_of_ne hlast, h.idx i (by omega), getElem_append_left]
    · intro i hi
      rw [length_append, length_singleton] at hi
      by_cases hlast : i = ks.length
      · subst hlast
        simp
      · dsimp only
        rw [update_of_ne hlast, h.val i (by omega), getElem_append_left]
    · intro i hi
      rw [length_append, length_singleton] at hi
      dsimp only
      rw [update_of_ne (by omega)]
      exact h.behind i (by omega)
  · rw [if_neg h0, if_neg h0, append_nil]
    exact h

theorem foldl_pressStep (arr : Nat → UInt32) (n : Nat) :
    Pressed arr ((range n).filter (arr · ≠ 0))
      ((range n).foldl pressStep ⟨arr, old, 0⟩) := by
  induction n with
  | zero =>
    refine ⟨rfl, fun i h => ?_, fun i h => ?_, fun _ _ => rfl⟩
    · simp at h
    · simp at h
  | succ n ih =>
    have hlen : ((range n).filter (arr · ≠ 0)).length ≤ n := by
      have := length_filter_le (arr · ≠ 0) (range n)
      rwa [length_range] at this
    have hstep := ih.step hlen
    have hfilter : [n].filter (arr · ≠ 0) = if arr n ≠ 0 then [n] else [] := by
      simp [filter_cons]
    rw [range_succ, filter_append, foldl_append, hfilter]
    exact hstep

theorem foldl_arrayStep (arr : Nat → UInt32) (n : Nat) :
    ∀ k, (range n).foldl arrayStep arr k = if k < n then htonl (arr k) else arr k := by
  induction n with
  | zero => intro k; rfl
  | succ n ih =>
    intro k
    rw [range_succ, foldl_append, foldl_cons, foldl_nil, arrayStep, ih n,
      if_neg (Nat.lt_irrefl n)]
    by_cases hk : k = n
    · subst hk
      rw [if_pos (Nat.lt_succ_self k)]
      split
      · exact update_self ..
      rename_i h0
      have hz : arr k = 0 := by
        apply UInt32.toNat_inj.mp
        have := mt UInt32.lt_iff_toNat_lt.mpr h0
        simp only [UInt32.toNat_zero] at this ⊢
        omega
      rw [ih, if_neg (Nat.lt_irrefl k), hz]
      rfl
    · have hlt : k < n + 1 ↔ k < n := by omega
      simp only [hlt]
      split
      · rw [update_of_ne hk, ih]
      · exact ih k

theorem flatMap_range_eq {α : Type} {ks : List α} {f : Nat → Bytes} {g : α → Bytes}
    (h : ∀ i hi, f i = g ks[i]) : (range ks.length).flatMap f = ks.flatMap g := by
  have hmap : (range ks.length).map f = ks.map g := by
    apply ext_getElem
    · simp
    · intro i hi hi'
      rw [length_map, length_range] at hi
      simp [h i hi]
  rw [flatMap_def, flatMap_def, hmap]

theorem words16_eq {ks : List Nat} {a : Nat → UInt16} (h : ∀ i hi, a i = htons (ofNat ks[i])) :
    words16 ks.length a = (ks.map ofNat).flatMap put16 := by
  rw [flatMap_map]
  exact flatMap_range_eq fun i hi => by rw [h i hi, le16_htons]

theorem words32_eq (ks : List Nat) {a f : Nat → UInt32} (h : ∀ i hi, a i = htonl (f ks[i])) :
    words32 ks.length a = (ks.map f).flatMap put32 := by
  rw [flatMap_map]
  exact flatMap_range_eq fun i hi => by rw [h i hi, le32_htonl]

/-- The head that both forms have. -/
def dayHead (cType iStaticTime : Nat) : Bytes :=
  UInt8.ofNat cType :: put16 (ofNat iStaticTime)

/-- The two forms. -/
def arrayValue (r : DayValues) : Bytes :=
  dayHead binTypeArrayV2 r.iStaticTime ++
    ((range (getStaticTimeMaxIdxOfDay r.iStaticTime)).map r.arrydwValue).flatMap put32

def pressValue (r : DayValues) : Bytes :=
  dayHead binTypePressV2 r.iStaticTime ++ (put16 (ofNat r.slots.length) ++
    ((r.slots.map ofNat).flatMap put16 ++ (r.slots.map r.arrydwValue).flatMap put32))

theorem encodeDay_cases : encodeDay r.iStaticTime r.iMaxReportIdx r.arrydwValue old = arrayValue r ∨
    encodeDay r.iStaticTime r.iMaxReportIdx r.arrydwValue old = pressValue r := by
  unfold encodeDay
  dsimp only
  by_cases hdense : getStaticTimeMaxIdxOfDay r.iStaticTime <
      (range (r.iMaxReportIdx + 1)).countP (r.arrydwValue · ≠ 0) * 2
  · left
    have hwords := words32_eq (range (getStaticTimeMaxIdxOfDay r.iStaticTime))
      (a := (range (getStaticTimeMaxIdxOfDay r.iStaticTime)).foldl arrayStep r.arrydwValue)
      fun i hi => by
        rw [length_range] at hi
        rw [foldl_arrayStep, if_pos hi, getElem_range]
    rw [length_range] at hwords
    rw [pressDay, if_pos hdense]
    dsimp only
    rw [hwords, le16_htons]
    rfl
  · right
    have hpress : Pressed r.arrydwValue r.slots _ :=
      foldl_pressStep old r.arrydwValue (r.iMaxReportIdx + 1)
    have hpos := length_pos_of_mem (r.mem_slots.mpr r.reported)
    rw [pressDay, if_neg hdense, hpress.count]
    rw [if_pos (Int.natCast_pos.mpr hpos), Int.toNat_natCast, words16_eq hpress.idx,
      words32_eq _ hpress.val, le16_htons, le16_htons]
    rfl

end Encode

/-! ## What is read -/

section Decode

variable (iAttrDataType : Int) {pval : Bytes} {lay : Layout}

/-- The loop over the entries `ks[i..]` with the values `f`, each for a slot that has
none yet. -/
theorem readDay_spec (pval : Bytes) (lay : Layout) (ks : List Nat) {f : Nat → UInt32}
    (htype : lay.cSaveBinType ≠ binTypeNone)
    (hidx : ∀ i h, lay.dbIdx pval i = some ks[i])
    (hval : ∀ i h, rd32 pval (lay.pattrVal + 4 * i) = some (f ks[i]).toNat)
    (hin : ∀ k ∈ ks, k < countStaticTimesPerDay ∧ k ≤ lay.iMaxAttrCountIdx) (hnodup : ks.Nodup) :
    ∀ n i iReport, i + n = ks.length → (∀ k ∈ ks.drop i, iReport k = 0) →
      readDay iAttrDataType pval lay n i iReport =
        some fun k => if k ∈ ks.drop i then f k else iReport k := by
  intro n
  induction n with
  | zero =>
    intro i iReport hi _
    rw [readDay, drop_eq_nil_of_le (by omega)]
    simp
  | succ n ih =>
    intro i iReport hi hzero
    have hlt : i < ks.length := by omega
    have hdrop : ks.drop i = ks[i] :: ks.drop (i + 1) := drop_eq_getElem_cons hlt
    have hmem : ks[i] ∈ ks := getElem_mem hlt
    -- no other entry is for this slot
    have hnot : ks[i] ∉ ks.drop (i + 1) := by
      have hsub : (ks.drop i).Nodup := hnodup.sublist (drop_sublist i ks)
      rw [hdrop] at hsub
      exact (nodup_cons.mp hsub).1
    have hz : iReport ks[i] = 0 := hzero _ (by rw [hdrop]; exact mem_cons_self)
    obtain ⟨hday, hmax⟩ := hin _ hmem
    rw [readDay, hidx i hlt]
    simp only [bind_eq_bind, bind_some]
    rw [if_neg (fun h => Nat.not_lt.mpr hmax h.2), hval i hlt, bind_some, if_pos hday,
      if_neg htype, hz, show ∀ v, getAttrIdxData 0 v _ = v from fun _ => if_pos rfl,
      UInt32.ofNat_toNat]
    rw [ih (i + 1) _ (by omega) fun k hk => ?_]
    · congr 1
      funext k
      rw [hdrop]
      by_cases hk : k = ks[i]
      · subst hk
        rw [if_neg hnot, update_self, if_pos mem_cons_self]
      · rw [update_of_ne hk]
        simp only [mem_cons, hk, false_or]
    · have hne : k ≠ ks[i] := fun h => hnot (h ▸ hk)
      rw [update_of_ne hne]
      exact hzero k (by rw [hdrop]; exact mem_cons_of_mem _ hk)

variable (r : DayValues)

theorem report_eq {ks : List Nat} (h : ∀ k, r.arrydwValue k ≠ 0 → k ∈ ks) :
    (fun k => if k ∈ ks then r.arrydwValue k else 0) = r.arrydwValue := by
  funext k
  by_cases hk : k ∈ ks
  · rw [if_pos hk]
  · rw [if_neg hk]
    exact (Decidable.not_not.mp (mt (h k) hk)).symm

@[simp] theorem length_dayHead (cType iStaticTime : Nat) : (dayHead cType iStaticTime).length = 3 :=
  rfl

theorem length_flatMap_put16 (ns : List UInt16) : (ns.flatMap put16).length = 2 * ns.length := by
  simp [Nat.mul_comm]

theorem length_flatMap_put32 (ns : List UInt32) : (ns.flatMap put32).length = 4 * ns.length := by
  simp [Nat.mul_comm]

theorem rd16_dayHead {cType t : Nat} (ht : t < 65536) (rest : Bytes) :
    rd16 (dayHead cType t ++ rest) 1 = some t := by
  have h := (rd16_append_right [UInt8.ofNat cType] (put16 (ofNat t) ++ rest) 0).trans
    (rd16_put16 _ _)
  rw [toNat_ofNat', Nat.mod_eq_of_lt ht] at h
  exact h

/-! The array form. -/

theorem length_arrayValue :
    (arrayValue r).length = 3 + getStaticTimeMaxIdxOfDay r.iStaticTime * 4 := by
  rw [arrayValue, length_append, length_dayHead, length_flatMap_put32, length_map,
    length_range, Nat.mul_comm]

theorem dayLayout_array : dayLayout (arrayValue r ++ [0]) (arrayValue r).length =
    some (some ⟨binTypeArrayV2, getStaticTimeMaxIdxOfDay r.iStaticTime,
      getStaticTimeMaxIdxOfDay r.iStaticTime, none, 3⟩) := by
  have htype : rd8 (arrayValue r ++ [0]) 0 = some binTypeArrayV2 := rfl
  have htime : rd16 (arrayValue r ++ [0]) 1 = some r.iStaticTime := by
    exact rd16_dayHead (static_time_cases r.valid).1 _
  rw [dayLayout, htype, bind_eq_bind, bind_some, arrayLayout, htime]
  simp [length_arrayValue, r.valid]

theorem decodeDay_array : decodeDay iAttrDataType (arrayValue r) (fun _ => 0) = some r.arrydwValue := by
  have hmax := (static_time_cases r.valid).2
  have hspec := readDay_spec iAttrDataType (arrayValue r ++ [0])
    ⟨binTypeArrayV2, getStaticTimeMaxIdxOfDay r.iStaticTime,
      getStaticTimeMaxIdxOfDay r.iStaticTime, none, 3⟩
    (range (getStaticTimeMaxIdxOfDay r.iStaticTime)) (f := r.arrydwValue)
    (show binTypeArrayV2 ≠ binTypeNone by decide) (fun i hi => by rw [getElem_range]; rfl)
    (fun i hi => ?_) (fun k hk => ?_) nodup_range (getStaticTimeMaxIdxOfDay r.iStaticTime) 0
    (fun _ => 0) (by rw [length_range]; omega) fun _ _ => rfl
  · rw [decodeDay, bind_eq_bind, dayLayout_array, bind_some]
    dsimp only
    rw [hspec, report_eq]
    exact fun k hk => mem_range.mpr (r.inside k hk)
  · have hread := rd32_flatMap (dayHead binTypeArrayV2 r.iStaticTime)
      ((range (getStaticTimeMaxIdxOfDay r.iStaticTime)).map r.arrydwValue) [0]
      (by rw [length_map]; exact hi)
    exact hread.trans (by rw [getElem_map])
  · have := mem_range.mp hk
    exact ⟨by omega, by dsimp only; omega⟩

/-! The form with the numbers of the static times. -/

/-- Up to the numbers. -/
def pressHead (r : DayValues) : Bytes :=
  dayHead binTypePressV2 r.iStaticTime ++ put16 (ofNat r.slots.length)

theorem pressValue_eq : pressValue r ++ [0] = pressHead r ++ ((r.slots.map ofNat).flatMap put16 ++
      ((r.slots.map r.arrydwValue).flatMap put32 ++ [0])) := by
  simp [pressValue, pressHead]

theorem length_pressValue : (pressValue r).length = 5 + r.slots.length * (2 + 4) := by
  simp only [pressValue, length_append, length_dayHead, length_put16, length_flatMap_put16,
    length_flatMap_put32, length_map]
  omega

theorem dayLayout_press : dayLayout (pressValue r ++ [0]) (pressValue r).length =
    some (some ⟨binTypePressV2, getStaticTimeMaxIdxOfDay r.iStaticTime, r.slots.length, some 5,
      5 + 2 * r.slots.length⟩) := by
  obtain ⟨ht, hmax⟩ := static_time_cases r.valid
  have hcount := r.length_slots_le
  have hday : countStaticTimesPerDay = 1440 := rfl
  have htype : rd8 (pressValue r ++ [0]) 0 = some binTypePressV2 := rfl
  have htime : rd16 (pressValue r ++ [0]) 1 = some r.iStaticTime := by
    exact rd16_dayHead ht _
  have hnum : rd16 (pressValue r ++ [0]) 3 = some r.slots.length := by
    refine ((rd16_append_right (dayHead binTypePressV2 r.iStaticTime) _ 0).trans
      (rd16_put16 _ _)).trans ?_
    rw [toNat_ofNat', Nat.mod_eq_of_lt (by omega)]
  rw [dayLayout, htype, bind_eq_bind, bind_some, arrayLayout, if_neg (by decide),
    bind_eq_bind, pressLayout, htime]
  simp [bind_eq_bind, bind_some, Option.pure_def, hnum, length_pressValue,
    r.valid]

theorem decodeDay_press : decodeDay iAttrDataType (pressValue r) (fun _ => 0) = some r.arrydwValue := by
  have hmax := (static_time_cases r.valid).2
  have hday : countStaticTimesPerDay = 1440 := rfl
  have hspec := readDay_spec iAttrDataType (pressValue r ++ [0])
    ⟨binTypePressV2, getStaticTimeMaxIdxOfDay r.iStaticTime, r.slots.length, some 5,
      5 + 2 * r.slots.length⟩ r.slots (f := r.arrydwValue)
    (show binTypePressV2 ≠ binTypeNone by decide) (fun i hi => ?_) (fun i hi => ?_)
    (fun k hk => ?_) (nodup_range.filter _) r.slots.length 0 (fun _ => 0) (by omega) fun _ _ => rfl
  · rw [decodeDay, bind_eq_bind, dayLayout_press, bind_some]
    dsimp only
    rw [hspec, report_eq]
    exact fun k hk => r.mem_slots.mpr hk
  · have hread := rd_flatMap rd16_append_right rd16_put16 length_put16 (pressHead r)
      (r.slots.map ofNat)
      ((r.slots.map r.arrydwValue).flatMap put32 ++ [0]) (by rw [length_map]; exact hi)
    have hlt := r.lt_of_mem_slots (getElem_mem hi)
    rw [← pressValue_eq, getElem_map, toNat_ofNat', Nat.mod_eq_of_lt (by omega)] at hread
    exact hread
  · have hread := rd32_flatMap (pressHead r ++ (r.slots.map ofNat).flatMap put16)
      (r.slots.map r.arrydwValue) [0] (by rw [length_map]; exact hi)
    have hoff : (pressHead r ++ (r.slots.map ofNat).flatMap put16).length =
        5 + 2 * r.slots.length := by
      rw [length_append, length_flatMap_put16, length_map]
      rfl
    rw [hoff, append_assoc, ← pressValue_eq, getElem_map] at hread
    exact hread
  · have := r.lt_of_mem_slots hk
    exact ⟨by omega, by dsimp only; omega⟩

end Decode

/-- **The values of a day.** For every valid static time and all values of a day, at
least one of them not 0, the view shows for a machine exactly the values that were
stored, whatever the kind of the attribute. -/
theorem day_record_round_trip (r : DayValues) (arrywIdx : Nat → UInt16) (iAttrDataType : Int) :
    decodeDay iAttrDataType (encodeDay r.iStaticTime r.iMaxReportIdx r.arrydwValue arrywIdx)
      (fun _ => 0) = some r.arrydwValue := by
  rcases encodeDay_cases r arrywIdx with h | h
  · rw [h]
    exact decodeDay_array iAttrDataType r
  · rw [h]
    exact decodeDay_press iAttrDataType r

/-- A static time of an hour; values at 3 and at 20 o'clock. -/
def twoHours : DayValues where
  iStaticTime := 60
  valid := rfl
  arrydwValue k := if k = 3 then 5 else if k = 20 then 7 else 0
  inside k h := by
    have hmax : getStaticTimeMaxIdxOfDay 60 = 24 := rfl
    by_contra hk
    exact h (by rw [if_neg (by omega), if_neg (by omega)])
  iMaxReportIdx := 20
  reported := by decide
  largest k h := by
    by_contra hk
    exact h (by rw [if_neg (by omega), if_neg (by omega)])

theorem day_record_round_trip_two_hours :
    decodeDay 1 (encodeDay 60 20 twoHours.arrydwValue fun _ => 0) (fun _ => 0) =
      some twoHours.arrydwValue :=
  day_record_round_trip twoHours (fun _ => 0) 1

end DesPwd.L1.AttrDay
