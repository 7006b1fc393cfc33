import DesPwd.Core.Bytes

/-!
# The entries of a plugin report

A report holds entries with their length in front: `TRepPluginInfo`, or
`TRepPluginInfoFirst` with the version and the name of the plugin. The server
turns the numbers of an entry to its own order in place
(slog_mtreport_server/udp_sock.cpp, udp_sock.h).

`Agree` compares two memories byte by byte. `SameRead` puts two readers side by
side: from memories that agree where the fields stand they read the same.

* `agree_readInfo`, `agree_readFirst`: what a reader leaves alone.
* `readInfo_congr`, `readFirst_congr`: what a reader sees.
-/
namespace DesPwd.L1.PluginEntry

open Bytes List Option

/-! ## Memory -/

/-- `d` written at `i`. -/
def store (b : Bytes) (i : Nat) (d : Bytes) : Bytes := b.take i ++ (d ++ b.drop (i + d.length))

/-- The four bytes at `i` turned to the host's order and then by `g`, in place. -/
def ntohlWith (g : UInt32 → UInt32) (b : Bytes) (i : Nat) : Option (UInt32 × Bytes) := do
  let v ← rd32 b i
  pure (g (UInt32.ofNat v), store b i (le32 (g (UInt32.ofNat v))))

/-- `x = ntohl(x)` -/
abbrev ntohlAt (b : Bytes) (i : Nat) : Option (UInt32 × Bytes) := ntohlWith id b i

/-- The C string at `i`. -/
def cStrAt (b : Bytes) (i : Nat) : Option Bytes := cStr (b.length + 1) (b.drop i)

/-- `strncmp(s, m, n) == 0` for a string of the database. -/
def strncmpEq : Nat → Bytes → Bytes → Option Bool
  | 0, _, _ => some true
  | _ + 1, _, [] => none
  | _ + 1, [], y :: _ => some (y = 0)
  | n + 1, x :: s, y :: m =>
    if x ≠ y then some false else if x = 0 then some true else strncmpEq n s m

/-- The memories have the same bytes where `D` holds. -/
def Agree (D : Nat → Prop) (b b2 : Bytes) : Prop := ∀ j, D j → b[j]? = b2[j]?

variable {D : Nat → Prop} {b b2 : Bytes} {n i : Nat}

theorem Agree.trans {b3 : Bytes} (h : Agree D b b2) (h' : Agree D b2 b3) :
    Agree D b b3 := fun j hj => (h j hj).trans (h' j hj)

theorem Agree.mono {E : Nat → Prop} (h : Agree D b b2) (hE : ∀ j, E j → D j) :
    Agree E b b2 := fun j hj => h j (hE j hj)

theorem Agree.drop_eq (h : Agree (n ≤ ·) b b2) : b.drop n = b2.drop n := by
  apply ext_getElem?
  intro j
  rw [getElem?_drop, getElem?_drop]
  exact h _ (Nat.le_add_right n j)

theorem getElem?_store (hi : i ≤ b.length) (d : Bytes) (j : Nat) :
    (store b i d)[j]? = if i ≤ j ∧ j < i + d.length then d[j - i]? else b[j]? := by
  have htake : (b.take i).length = i := length_take_of_le hi
  rw [store]
  by_cases hij : j < i
  · rw [if_neg (by omega), getElem?_append_left (by omega), getElem?_take_of_lt hij]
  rw [getElem?_append_right (by omega), htake]
  by_cases hjd : j < i + d.length
  · rw [if_pos ⟨by omega, hjd⟩, getElem?_append_left (by omega)]
  · rw [if_neg (by omega), getElem?_append_right (by omega), getElem?_drop]
    congr 1
    omega

theorem Agree.store (h : Agree D b b2) (hi : i ≤ b.length) (hi2 : i ≤ b2.length) (d : Bytes) :
    Agree D (store b i d) (store b2 i d) := fun j hj => by
  rw [getElem?_store hi, getElem?_store hi2, h j hj]

theorem rd8_congr (h : b[i]? = b2[i]?) : rd8 b i = rd8 b2 i := by
  rw [rd8, rd8, h]

theorem rd32_congr (h : Agree (fun j => i ≤ j ∧ j < i + 4) b b2) : rd32 b i = rd32 b2 i := by
  rw [rd32, rd32, rd16, rd16, rd16, rd16, rd8_congr (h i (by omega)),
    rd8_congr (h (i + 1) (by omega)), rd8_congr (h (i + 2) (by omega)),
    rd8_congr (h (i + 2 + 1) (by omega))]

theorem length_of_rd32 (h : rd32 b i = some n) : i + 4 ≤ b.length := by
  obtain ⟨_, _, _, _, -, -, -, hw, -⟩ := rd32_bytes h
  obtain ⟨hlt, -⟩ := List.getElem?_eq_some_iff.mp hw
  omega

theorem agree_ntohlWith {g : UInt32 → UInt32} {b' : Bytes} {v : UInt32}
    (h : ntohlWith g b i = some (v, b')) (hi : i + 4 ≤ n) : Agree (n ≤ ·) b b' := by
  simp only [ntohlWith, bind_eq_bind, bind_eq_some_iff] at h
  obtain ⟨n, hn, rfl, rfl⟩ := h
  have hlen := length_of_rd32 hn
  intro j hj
  rw [getElem?_store (by omega), if_neg (by simp [le32]; omega)]

/-! ### Two memories side by side -/

/-- The same value was read, and the memories still agree. -/
def SameRead {A : Type} (D : Nat → Prop) : Option (A × Bytes) → Option (A × Bytes) → Prop :=
  Option.Rel fun r r2 => r.1 = r2.1 ∧ Agree D r.2 r2.2

section SameRead

variable {A B : Type} {D : Nat → Prop} {b b2 : Bytes}

theorem SameRead.bind {m m2 : Option (A × Bytes)} {k : A × Bytes → Option (B × Bytes)}
    (h : SameRead D m m2)
    (hk : ∀ x b b2, Agree D b b2 → SameRead D (k (x, b)) (k (x, b2))) :
    SameRead D (m >>= k) (m2 >>= k) := by
  cases h with
  | none => exact .none
  | @some r r2 h =>
    obtain ⟨x, b⟩ := r
    obtain ⟨_, b2⟩ := r2
    obtain ⟨rfl, hag⟩ := h
    exact hk x b b2 hag

theorem SameRead.map_fst {m m2 : Option (A × Bytes)} (h : SameRead D m m2) :
    m.map Prod.fst = m2.map Prod.fst := by
  cases h with
  | none => rfl
  | some h => exact congrArg some h.1

theorem SameRead.ntohlWith {g : UInt32 → UInt32} {i : Nat} (h : Agree D b b2)
    (hD : ∀ j, i ≤ j ∧ j < i + 4 → D j) : SameRead D (ntohlWith g b i) (ntohlWith g b2 i) := by
  have hrd := rd32_congr (h.mono hD)
  rw [PluginEntry.ntohlWith, PluginEntry.ntohlWith, ← hrd]
  cases hn : rd32 b i with
  | none => exact .none
  | some n =>
    have hlen := length_of_rd32 hn
    have hlen2 := length_of_rd32 (hrd ▸ hn)
    exact .some ⟨rfl, h.store (by omega) (by omega) _⟩

end SameRead

/-! ## Entries

The offsets count from the byte in front of an entry, which holds its length. -/

/-- `TRepPluginInfo`. mirrors slog_mtreport_server/udp_sock.h -/
structure Info where
  iPluginId : Int
  dwLastReportAttrTime : UInt32
  dwLastReportLogTime : UInt32
  dwLastHelloTime : UInt32
  dwConfigFileTime : UInt32

/-- `TRepPluginInfoFirst` without its two texts. mirrors slog_mtreport_server/udp_sock.h -/
structure First where
  iPluginId : Int
  iLibVerNum : Int
  dwConfigFileTime : UInt32
  dwLastReportAttrTime : UInt32
  dwLastReportLogTime : UInt32
  dwLastHelloTime : UInt32
  dwPluginStartTime : UInt32
  bPluginNameLen : Nat

/-- `dwLastHelloTime`: zero is replaced by the time of the server. -/
abbrev helloAt (now : UInt32) (b : Bytes) (i : Nat) : Option (UInt32 × Bytes) :=
  ntohlWith (fun v => if v = 0 then now else v) b i

/-- mirrors slog_mtreport_server/udp_sock.cpp:1498-1505 -/
def readInfo (now : UInt32) (b : Bytes) : Option (Info × Bytes) := do
  let (iPluginId, b) ← ntohlAt b 1
  let (dwLastReportAttrTime, b) ← ntohlAt b 5
  let (dwLastReportLogTime, b) ← ntohlAt b 9
  let (dwLastHelloTime, b) ← helloAt now b 13
  let (dwConfigFileTime, b) ← ntohlAt b 17
  pure ({ iPluginId := toS32 iPluginId.toNat, dwLastReportAttrTime, dwLastReportLogTime,
          dwLastHelloTime, dwConfigFileTime }, b)

/-- mirrors udp_sock.cpp:1537-1547 -/
def readFirst (now : UInt32) (b : Bytes) : Option (First × Bytes) := do
  let (iPluginId, b) ← ntohlAt b 1
  let (iLibVerNum, b) ← ntohlAt b 21
  let (dwLastReportAttrTime, b) ← ntohlAt b 29
  let (dwLastReportLogTime, b) ← ntohlAt b 33
  let (dwPluginStartTime, b) ← ntohlAt b 41
  let (dwLastHelloTime, b) ← helloAt now b 37
  let (dwConfigFileTime, b) ← ntohlAt b 25
  let bPluginNameLen ← rd8 b 45
  pure ({ iPluginId := toS32 iPluginId.toNat, iLibVerNum := toS32 iLibVerNum.toNat,
          dwConfigFileTime, dwLastReportAttrTime, dwLastReportLogTime, dwLastHelloTime,
          dwPluginStartTime, bPluginNameLen }, b)

section Read

variable {now : UInt32} {b b2 b' : Bytes}

/-- The numbers of an entry stand in its first 21 bytes. -/
theorem agree_readInfo {x : Info} (h : readInfo now b = some (x, b')) : Agree (21 ≤ ·) b b' := by
  simp only [readInfo, bind_eq_bind, bind_eq_some_iff, Prod.exists] at h
  obtain ⟨_, _, h1, _, _, h2, _, _, h3, _, _, h4, _, _, h5, -, rfl⟩ := h
  refine (agree_ntohlWith h1 (by decide)).trans ((agree_ntohlWith h2 (by decide)).trans ?_)
  refine (agree_ntohlWith h3 (by decide)).trans ((agree_ntohlWith h4 (by decide)).trans ?_)
  exact agree_ntohlWith h5 (by decide)

/-- The numbers of a first report stand in its first 46 bytes. -/
theorem agree_readFirst {f : First} (h : readFirst now b = some (f, b')) : Agree (46 ≤ ·) b b' := by
  simp only [readFirst, bind_eq_bind, bind_eq_some_iff, Prod.exists] at h
  obtain ⟨_, _, h1, _, _, h2, _, _, h3, _, _, h4, _, _, h5, _, _, h6, _, _, h7, _, -, -, rfl⟩ := h
  refine (agree_ntohlWith h1 (by decide)).trans ((agree_ntohlWith h2 (by decide)).trans ?_)
  refine (agree_ntohlWith h3 (by decide)).trans ((agree_ntohlWith h4 (by decide)).trans ?_)
  refine (agree_ntohlWith h5 (by decide)).trans ((agree_ntohlWith h6 (by decide)).trans ?_)
  exact agree_ntohlWith h7 (by decide)

/-- The fields that `readFirst` reads. -/
def Numeric (j : Nat) : Prop := 1 ≤ j ∧ j < 5 ∨ 21 ≤ j ∧ j < 46

theorem readInfo_congr (h : Agree (· < 21) b b2) :
    SameRead (· < 21) (readInfo now b) (readInfo now b2) := by
  iterate 5 refine (SameRead.ntohlWith h (by omega)).bind fun _ _ _ h => ?_
  exact .some ⟨rfl, h⟩

theorem readFirst_congr (h : Agree Numeric b b2) :
    SameRead Numeric (readFirst now b) (readFirst now b2) := by
  have hD {i : Nat} (hi : i + 4 ≤ 5 ∧ 1 ≤ i ∨ i + 4 ≤ 46 ∧ 21 ≤ i) (j : Nat)
      (hj : i ≤ j ∧ j < i + 4) : Numeric j := by
    unfold Numeric
    omega
  iterate 6 refine (SameRead.ntohlWith h (hD (by decide))).bind fun _ _ _ h => ?_
  refine (SameRead.ntohlWith h (hD (by decide))).bind fun _ c c2 h => ?_
  -- the length of the name is read where it stands
  have hlen : rd8 c 45 = rd8 c2 45 := rd8_congr (h 45 (.inr (by decide)))
  simp only [hlen]
  cases rd8 c2 45 with
  | none => exact .none
  | some n => exact .some ⟨rfl, h⟩

end Read

end DesPwd.L1.PluginEntry
